import PowerPC.Toml.Document

/-!
# Libraries of documents

All that is asked of a library: to write a table as the text of a document, and to read the table
of a text. The one that is used here lays a table out in blocks with a blank line between them.
-/

namespace PowerPC.Toml

structure Library where
  write : Table → String
  read? : String → Option Table

def library : Library where
  write t := blocksText t.blocks
  read? := parse?

end PowerPC.Toml

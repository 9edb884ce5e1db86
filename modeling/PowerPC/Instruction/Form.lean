import PowerPC.Word.Basic

/-!
# Instruction forms

How each form divides a word into fields. Fields are raw: nothing is sign extended or scaled.
-/

namespace PowerPC

def Word.primary (w : Word) : BitVec 6 := w.field 0 6

structure IForm where
  li : BitVec 24
  aa : Bool
  lk : Bool
deriving DecidableEq, Repr

def IForm.ofWord (w : Word) : IForm := ⟨w.field 6 24, w.bit 30, w.bit 31⟩

structure BForm where
  bo : BitVec 5
  bi : BitVec 5
  bd : BitVec 14
  aa : Bool
  lk : Bool
deriving DecidableEq, Repr

def BForm.ofWord (w : Word) : BForm :=
  ⟨w.field 6 5, w.field 11 5, w.field 16 14, w.bit 30, w.bit 31⟩

structure DForm where
  rt : BitVec 5
  ra : BitVec 5
  d : BitVec 16
deriving DecidableEq, Repr

def DForm.ofWord (w : Word) : DForm := ⟨w.field 6 5, w.field 11 5, w.field 16 16⟩

structure DsForm where
  rt : BitVec 5
  ra : BitVec 5
  ds : BitVec 14
  xo : BitVec 2
deriving DecidableEq, Repr

def DsForm.ofWord (w : Word) : DsForm :=
  ⟨w.field 6 5, w.field 11 5, w.field 16 14, w.field 30 2⟩

structure XForm where
  rt : BitVec 5
  ra : BitVec 5
  rb : BitVec 5
  xo : BitVec 10
  rc : Bool
deriving DecidableEq, Repr

def XForm.ofWord (w : Word) : XForm :=
  ⟨w.field 6 5, w.field 11 5, w.field 16 5, w.field 21 10, w.bit 31⟩

structure XoForm where
  rt : BitVec 5
  ra : BitVec 5
  rb : BitVec 5
  oe : Bool
  xo : BitVec 9
  rc : Bool
deriving DecidableEq, Repr

def XoForm.ofWord (w : Word) : XoForm :=
  ⟨w.field 6 5, w.field 11 5, w.field 16 5, w.bit 21, w.field 22 9, w.bit 31⟩

structure XlForm where
  bt : BitVec 5
  ba : BitVec 5
  bb : BitVec 5
  xo : BitVec 10
  lk : Bool
deriving DecidableEq, Repr

def XlForm.ofWord (w : Word) : XlForm :=
  ⟨w.field 6 5, w.field 11 5, w.field 16 5, w.field 21 10, w.bit 31⟩

structure XfxForm where
  rt : BitVec 5
  spr : BitVec 10
  xo : BitVec 10
deriving DecidableEq, Repr

def XfxForm.ofWord (w : Word) : XfxForm := ⟨w.field 6 5, w.field 11 10, w.field 21 10⟩

structure XflForm where
  flm : BitVec 8
  frb : BitVec 5
  xo : BitVec 10
  rc : Bool
deriving DecidableEq, Repr

def XflForm.ofWord (w : Word) : XflForm :=
  ⟨w.field 7 8, w.field 16 5, w.field 21 10, w.bit 31⟩

structure MForm where
  rs : BitVec 5
  ra : BitVec 5
  rb : BitVec 5
  mb : BitVec 5
  me : BitVec 5
  rc : Bool
deriving DecidableEq, Repr

def MForm.ofWord (w : Word) : MForm :=
  ⟨w.field 6 5, w.field 11 5, w.field 16 5, w.field 21 5, w.field 26 5, w.bit 31⟩

end PowerPC

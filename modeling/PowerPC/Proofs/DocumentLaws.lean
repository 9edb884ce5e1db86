import PowerPC.Proofs.StatementLaws

/-!
# Tables built from statements

What a header with its assignments adds to the root table of a document: one table at its end, or
one element of the array of tables at its end. What stood there before is kept.
-/

namespace PowerPC.Toml

variable {t entries : Table} {ts : List Table} {key name outer inner : String} {v : Value}
variable {ss ss' : List Statement}

-- ---------------------------------------------------------------------------
-- Changing one key
-- ---------------------------------------------------------------------------

namespace Table

theorem lookup_cons_eq_none_iff {e : String × Value} :
    List.lookup key (e :: t) = none ↔ e.1 ≠ key ∧ t.lookup key = none := by
  obtain ⟨k, v⟩ := e
  by_cases hkey : k = key
  · simp [hkey]
  · have hne : (key == k) = false := by simpa using Ne.symm hkey
    rw [List.lookup_cons, hne]
    exact ⟨fun h => ⟨hkey, h⟩, And.right⟩

theorem alter_fresh {f : Option Value → Option Value} (h : t.lookup key = none) :
    t.alter key f = (f none).map fun v => t ++ [(key, v)] := by
  induction t with
  | nil => rfl
  | cons e t ih =>
    obtain ⟨hkey, hrest⟩ := lookup_cons_eq_none_iff.mp h
    rw [alter, if_neg hkey, ih hrest, Option.map_map]
    rfl

theorem alter_concat {f : Option Value → Option Value} (h : t.lookup key = none) :
    Table.alter (t ++ [(key, v)]) key f = (f (some v)).map fun v => t ++ [(key, v)] := by
  induction t with
  | nil => exact if_pos rfl
  | cons e t ih =>
    obtain ⟨hkey, hrest⟩ := lookup_cons_eq_none_iff.mp h
    rw [List.cons_append, alter, if_neg hkey, ih hrest, Option.map_map]
    rfl

theorem lookup_concat_of_ne (h : t.lookup key = none) (hne : name ≠ key) :
    List.lookup key (t ++ [(name, v)]) = none := by
  rw [List.lookup_append, h, Option.none_or]
  exact lookup_cons_eq_none_iff.mpr ⟨hne, rfl⟩

theorem insert_fresh (h : t.lookup key = none) :
    Table.insert true key v [] t = some (t ++ [(key, v)]) := by
  rw [Table.insert, alter_fresh h]
  rfl

theorem alterLast_concat {f : Table → Option Table} :
    alterLast f (ts ++ [t]) = (f t).map fun t => ts ++ [t] := by
  induction ts with
  | nil => rfl
  | cons u ts ih =>
    rw [List.cons_append, alterLast, ih, Option.map_map]
    · rfl
    · simp

theorem atPath_table {f : Table → Option Table} {origin : Origin} {keys : List String}
    (horigin : origin ≠ .inlined) (h : t.lookup key = none) :
    Table.atPath f (key :: keys) (t ++ [(key, .table origin entries)]) =
      (atPath f keys entries).map fun entries => t ++ [(key, .table origin entries)] := by
  rw [Table.atPath, alter_concat h]
  cases origin with
  | inlined => exact absurd rfl horigin
  | _ => rw [Option.map_map]; rfl

theorem atPath_tables {f : Table → Option Table} {keys : List String} {u : Table}
    (h : t.lookup key = none) :
    Table.atPath f (key :: keys) (t ++ [(key, .tables (ts ++ [u]))]) =
      (atPath f keys u).map fun u => t ++ [(key, .tables (ts ++ [u]))] := by
  rw [Table.atPath, alter_concat h]
  simp only [alterLast_concat, Option.map_map]
  rfl

end Table

-- ---------------------------------------------------------------------------
-- Statements that add to the root
-- ---------------------------------------------------------------------------

/-- Whatever header came before, the statements make one root table out of another. -/
def Adds (ss : List Statement) (t t' : Table) : Prop :=
  ∀ current, ∃ current', ss.foldlM Building.add ⟨t, current⟩ = some ⟨t', current'⟩

theorem Adds.refl : Adds [] t t := fun current => ⟨current, rfl⟩

theorem Adds.trans {t' t'' : Table} (h : Adds ss t t') (h' : Adds ss' t' t'') :
    Adds (ss ++ ss') t t'' := fun current => by
  obtain ⟨current', hfirst⟩ := h current
  obtain ⟨current'', hsecond⟩ := h' current'
  exact ⟨current'', by rw [List.foldlM_append, hfirst]; exact hsecond⟩

theorem Adds.ofStatements? (h : Adds ss [] t) : Table.ofStatements? ss = some t := by
  obtain ⟨current, hrun⟩ := h []
  rw [Table.ofStatements?, hrun, Option.map_some]

def tableStatements (name : String) (entries : Table) : List Statement :=
  .table ⟨[], name⟩ :: assignAll entries

def elementStatements (outer inner : String) (entries : Table) : List Statement :=
  .element ⟨[outer], inner⟩ :: assignAll entries

/-- Where each assignment puts a key at the end of the same table, they put all entries there. -/
theorem foldlM_assignAll {current : List String} {f : Table → Table}
    (hstep : ∀ (t : Table) (key : String) (v : Value), t.lookup key = none →
      (f t).atPath (Table.insert true key v []) current = some (f (t ++ [(key, v)])))
    (hkeys : (entries.map Prod.fst).Nodup) (hfresh : ∀ e ∈ entries, t.lookup e.1 = none) :
    (assignAll entries).foldlM Building.add ⟨f t, current⟩ = some ⟨f (t ++ entries), current⟩ := by
  induction entries generalizing t with
  | nil => simp [assignAll]
  | cons e entries ih =>
    obtain ⟨key, v⟩ := e
    obtain ⟨hkey, hfresh⟩ := List.forall_mem_cons.mp hfresh
    obtain ⟨hnotMem, hkeys⟩ := List.nodup_cons.mp hkeys
    have hadd : Building.add ⟨f t, current⟩ (.assign ⟨[], key⟩ v) =
        some ⟨f (t ++ [(key, v)]), current⟩ := by
      rw [Building.add, hstep t key v hkey]
      rfl
    have hrest : ∀ e ∈ entries, List.lookup e.1 (t ++ [(key, v)]) = none := fun e he =>
      Table.lookup_concat_of_ne (hfresh e he) fun heq =>
        hnotMem (List.mem_map.mpr ⟨e, he, heq.symm⟩)
    rw [assignAll, List.map_cons, List.foldlM_cons, hadd]
    exact (ih hkeys hrest).trans (by rw [List.append_assoc, List.singleton_append])

theorem adds_table (hname : t.lookup name = none) (hkeys : (entries.map Prod.fst).Nodup) :
    Adds (tableStatements name entries) t (t ++ [(name, .table .header entries)]) := by
  intro current
  have hopen : Building.add ⟨t, current⟩ (.table ⟨[], name⟩) =
      some ⟨t ++ [(name, .table .header [])], [name]⟩ := by
    rw [Building.add]
    simp only [Table.atPath, Table.openTable]
    rw [Table.alter_fresh hname]
    rfl
  have hassign : (assignAll entries).foldlM Building.add
      ⟨t ++ [(name, .table .header [])], [name]⟩ =
        some ⟨t ++ [(name, .table .header entries)], [name]⟩ := by
    refine foldlM_assignAll (t := []) (f := fun es => t ++ [(name, .table .header es)]) ?_ hkeys
      fun _ _ => rfl
    intro es key v hkey
    rw [Table.atPath_table (by decide) hname, Table.atPath, Table.insert_fresh hkey]
    rfl
  refine ⟨[name], ?_⟩
  rw [tableStatements, List.foldlM_cons, hopen]
  exact hassign

def arrayEntries (outer inner : String) : List Table → Table
  | [] => []
  | ts => [(outer, .table .implied [(inner, .tables ts)])]

theorem arrayEntries_concat :
    arrayEntries outer inner (ts ++ [t]) =
      [(outer, .table .implied [(inner, .tables (ts ++ [t]))])] := by
  cases ts <;> rfl

theorem add_element {current : List String} (houter : t.lookup outer = none) :
    Building.add ⟨t ++ arrayEntries outer inner ts, current⟩ (.element ⟨[outer], inner⟩) =
      some ⟨t ++ arrayEntries outer inner (ts ++ [[]]), [outer, inner]⟩ := by
  cases ts with
  | nil =>
    rw [arrayEntries, List.append_nil, Building.add, Table.atPath, Table.alter_fresh houter]
    rfl
  | cons u ts =>
    have hopen : Table.openElement [(inner, .tables (u :: ts))] inner =
        some [(inner, .tables (u :: ts ++ [[]]))] := if_pos rfl
    rw [arrayEntries, Building.add, Table.atPath_table (by decide) houter, Table.atPath, hopen]
    · rfl
    · nofun

theorem adds_element (houter : t.lookup outer = none) (hkeys : (entries.map Prod.fst).Nodup) :
    Adds (elementStatements outer inner entries) (t ++ arrayEntries outer inner ts)
      (t ++ arrayEntries outer inner (ts ++ [entries])) := by
  intro current
  have hassign : (assignAll entries).foldlM Building.add
      ⟨t ++ arrayEntries outer inner (ts ++ [[]]), [outer, inner]⟩ =
        some ⟨t ++ arrayEntries outer inner (ts ++ [entries]), [outer, inner]⟩ := by
    refine foldlM_assignAll (t := []) (f := fun es => t ++ arrayEntries outer inner (ts ++ [es])) ?_
      hkeys fun _ _ => rfl
    intro es key v hkey
    have hinner : Table.atPath (Table.insert true key v []) [inner]
        [(inner, .tables (ts ++ [es]))] = some [(inner, .tables (ts ++ [es ++ [(key, v)]]))] := by
      refine (Table.atPath_tables (t := []) rfl).trans ?_
      rw [Table.atPath, Table.insert_fresh hkey]
      rfl
    simp only [arrayEntries_concat]
    rw [Table.atPath_table (by decide) houter, hinner]
    rfl
  refine ⟨[outer, inner], ?_⟩
  rw [elementStatements, List.foldlM_cons, add_element houter]
  exact hassign

theorem adds_elements (houter : t.lookup outer = none) {us : List Table}
    (hkeys : ∀ entries ∈ us, (entries.map Prod.fst).Nodup) (ts : List Table) :
    Adds (us.flatMap (elementStatements outer inner)) (t ++ arrayEntries outer inner ts)
      (t ++ arrayEntries outer inner (ts ++ us)) := by
  induction us generalizing ts with
  | nil => exact (List.append_nil ts).symm ▸ Adds.refl
  | cons entries us ih =>
    obtain ⟨hentries, hus⟩ := List.forall_mem_cons.mp hkeys
    have hrest : Adds (us.flatMap (elementStatements outer inner))
        (t ++ arrayEntries outer inner (ts ++ [entries]))
        (t ++ arrayEntries outer inner (ts ++ entries :: us)) := by
      simpa using ih hus (ts ++ [entries])
    exact (adds_element houter hentries).trans hrest

end PowerPC.Toml

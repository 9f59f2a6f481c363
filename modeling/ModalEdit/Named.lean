/-!
# Name tables

A table of values under one-character names, as registers and marks are kept. A name stands at most
once in it: setting a name takes its old entry out, and changing or dropping values puts no name in.
-/

namespace ModalEdit

/-- Values under one-character names, the latest set first. -/
structure Named (α : Type) where
  entries : List (Char × α)
  nodup : (entries.map Prod.fst).Nodup
  deriving DecidableEq, Repr

namespace Named

variable {α β : Type}

/-- The table without entries, written as the list without any. -/
def empty : Named α := ⟨[], .nil⟩

instance : CoeDep (List β) [] (Named α) := ⟨empty⟩

/-- The number of names. -/
def length (table : Named α) : Nat :=
  table.entries.length

def isEmpty (table : Named α) : Bool :=
  table.entries.isEmpty

/-- The value under a name. -/
def get? (table : Named α) (name : Char) : Option α :=
  table.entries.lookup name

/-- The table with a value put under a name, whatever was there before. -/
def set (table : Named α) (name : Char) (value : α) : Named α where
  entries := (name, value) :: table.entries.filter (·.1 != name)
  nodup := by
    have hname : name ∉ (table.entries.filter (·.1 != name)).map Prod.fst := by simp
    exact List.nodup_cons.2 ⟨hname, table.nodup.sublist (List.filter_sublist.map Prod.fst)⟩

theorem names_filterMap_sublist (f : α → Option β) (entries : List (Char × α)) :
    ((entries.filterMap fun entry => (f entry.2).map (entry.1, ·)).map Prod.fst).Sublist
      (entries.map Prod.fst) := by
  induction entries with
  | nil => exact .slnil
  | cons entry entries ih =>
    cases hvalue : f entry.2 with
    | none => simpa [hvalue] using ih.cons entry.1
    | some value => simpa [hvalue] using ih.cons_cons entry.1

/-- The table with each value changed or dropped. -/
def filterMap (f : α → Option β) (table : Named α) : Named β where
  entries := table.entries.filterMap fun entry => (f entry.2).map (entry.1, ·)
  nodup := table.nodup.sublist (names_filterMap_sublist f table.entries)

theorem lookup_cons (k : Char) (v : α) (entries : List (Char × α)) (name : Char) :
    ((k, v) :: entries).lookup name = if name = k then some v else entries.lookup name := by
  rw [List.lookup_cons]
  by_cases h : name = k
  · simp [h]
  · have hne : (name == k) = false := by simpa using h
    rw [if_neg h, hne]

theorem lookup_filter_ne (entries : List (Char × α)) {k name : Char} (h : name ≠ k) :
    (entries.filter (·.1 != k)).lookup name = entries.lookup name := by
  induction entries with
  | nil => rfl
  | cons entry entries ih =>
    obtain ⟨k', v⟩ := entry
    by_cases hk : k' = k
    · subst hk
      simpa [lookup_cons, h] using ih
    · simp [hk, lookup_cons, ih]

/-- Setting a name changes what is under that name only. -/
theorem get?_set (table : Named α) (k name : Char) (v : α) :
    (table.set k v).get? name = if name = k then some v else table.get? name := by
  rw [get?, set, lookup_cons]
  by_cases h : name = k
  · rw [if_pos h, if_pos h]
  · rw [if_neg h, if_neg h, lookup_filter_ne table.entries h, get?]

theorem lookup_eq_none {entries : List (Char × α)} {name : Char}
    (h : name ∉ entries.map Prod.fst) : entries.lookup name = none := by
  induction entries with
  | nil => rfl
  | cons entry entries ih =>
    rw [List.map_cons, List.mem_cons, not_or] at h
    rw [lookup_cons, if_neg h.1, ih h.2]

/-- Changing or dropping the values changes or drops the value under a name, because no other entry
has that name. -/
theorem get?_filterMap (f : α → Option β) (table : Named α) (name : Char) :
    (table.filterMap f).get? name = (table.get? name).bind f := by
  obtain ⟨entries, hnodup⟩ := table
  show (entries.filterMap fun entry => (f entry.2).map (entry.1, ·)).lookup name =
    (entries.lookup name).bind f
  induction entries with
  | nil => rfl
  | cons entry entries ih =>
    obtain ⟨k, v⟩ := entry
    obtain ⟨hk, hrest⟩ := List.nodup_cons.1 hnodup
    rw [lookup_cons]
    by_cases hname : name = k
    · subst hname
      cases hv : f v with
      | none => simp [hv, ih hrest, lookup_eq_none hk]
      | some w => simp [hv]
    · cases hv : f v with
      | none => simp [hv, ih hrest, hname]
      | some w => simp [hv, lookup_cons, ih hrest, hname]

end Named

end ModalEdit

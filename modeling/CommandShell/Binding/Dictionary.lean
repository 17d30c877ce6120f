/-!
# `CommandShell.Binding.Dictionary` — finite maps from texts

A dictionary maps a text to at most one thing. Its entries are kept in some order, but none of the
operations that look something up depends on it, and whoever lists a dictionary has to choose an order
of his own.

## Contents
- `Dictionary`, entries with distinct keys, with `Dictionary.insert` and `Dictionary.erase`.
- `Dictionary.getElem?_insert` and `Dictionary.getElem?_erase`, the operations seen through one key.
- `Dictionary.mem_entries`, the entries as a set.
-/

namespace CommandShell

/-- A map from finitely many texts. -/
structure Dictionary (α : Type) where
  entries : List (String × α) := []
  distinct : (entries.map (·.1)).Nodup := by exact List.nodup_nil

namespace Dictionary

variable {α : Type}

instance : EmptyCollection (Dictionary α) :=
  ⟨{}⟩

/-- What a key is mapped to. -/
def find? (d : Dictionary α) (key : String) : Option α :=
  d.entries.lookup key

instance : GetElem? (Dictionary α) String α fun d key => (d.find? key).isSome = true where
  getElem d key h := (d.find? key).get h
  getElem? := find?

def contains (d : Dictionary α) (key : String) : Bool :=
  d.entries.any fun entry => entry.1 == key

/-- The dictionary without a key. -/
def erase (d : Dictionary α) (key : String) : Dictionary α where
  entries := d.entries.filter fun entry => entry.1 ≠ key
  distinct := d.distinct.sublist (List.filter_sublist.map _)

/-- The dictionary with a key mapped anew, whatever it was mapped to before. -/
def insert (d : Dictionary α) (key : String) (a : α) : Dictionary α where
  entries := (key, a) :: (d.erase key).entries
  distinct := by
    refine List.nodup_cons.mpr ⟨?_, (d.erase key).distinct⟩
    simp [erase]

/-- The number of keys. -/
def size (d : Dictionary α) : Nat :=
  d.entries.length

/-! ## Operations seen through one key -/

@[simp] theorem getElem?_empty (key : String) : (∅ : Dictionary α)[key]? = none := rfl

/-- The other keys are mapped as before. The induction is on the entries, one of which is left out. -/
theorem getElem?_erase (d : Dictionary α) (key key' : String) :
    (d.erase key)[key']? = if key = key' then none else d[key']? := by
  show (d.entries.filter _).lookup key' = if key = key' then none else d.entries.lookup key'
  induction d.entries with
  | nil => simp
  | cons entry entries ih =>
      obtain ⟨first, a⟩ := entry
      rw [List.filter_cons, List.lookup_cons]
      by_cases hfirst : first = key
      · -- The entry is left out, and it is not the one that is looked for behind it.
        rw [if_neg (by simp [hfirst]), ih, hfirst]
        split
        · rfl
        · next hkey => rw [beq_false_of_ne (Ne.symm hkey)]
      · rw [if_pos (by simp [hfirst]), List.lookup_cons, ih]
        by_cases hkey : key' = first
        · simp [hkey, Ne.symm hfirst]
        · rw [beq_false_of_ne hkey]

/-- A key is mapped to what was inserted last for it. -/
theorem getElem?_insert (d : Dictionary α) (key key' : String) (a : α) :
    (d.insert key a)[key']? = if key = key' then some a else d[key']? := by
  have herase := d.getElem?_erase key key'
  show List.lookup key' ((key, a) :: (d.erase key).entries) = _
  rw [List.lookup_cons]
  by_cases hkey : key = key'
  · rw [hkey, beq_self_eq_true, if_pos rfl]
  · rw [if_neg hkey] at herase ⊢
    rw [beq_false_of_ne (Ne.symm hkey)]
    exact herase

@[simp] theorem getElem?_insert_self (d : Dictionary α) (key : String) (a : α) :
    (d.insert key a)[key]? = some a := by
  rw [getElem?_insert, if_pos rfl]

/-! ## Entries -/

/-- No other entry has the key of this one, so the lookup finds it. -/
theorem mem_entries {d : Dictionary α} {key : String} {a : α} :
    (key, a) ∈ d.entries ↔ d[key]? = some a := by
  show _ ↔ d.entries.lookup key = some a
  obtain ⟨entries, hdistinct⟩ := d
  dsimp only
  induction entries with
  | nil => simp
  | cons entry entries ih =>
      obtain ⟨first, b⟩ := entry
      rw [List.map_cons, List.nodup_cons] at hdistinct
      rw [List.mem_cons, List.lookup_cons]
      by_cases hkey : key = first
      · have hothers : (key, a) ∉ entries := fun hmem =>
          hdistinct.1 (List.mem_map.mpr ⟨_, hmem, hkey⟩)
        simp [hkey, eq_comm, hkey ▸ hothers]
      · simp [hkey, beq_false_of_ne hkey, ih hdistinct.2]

theorem isSome_getElem? {d : Dictionary α} {key : String} :
    d[key]?.isSome = true ↔ key ∈ d.entries.map (·.1) := by
  simp [Option.isSome_iff_exists, ← mem_entries]

/-- A key is contained if it is mapped to something. -/
theorem contains_eq_isSome (d : Dictionary α) (key : String) : d.contains key = d[key]?.isSome := by
  rw [Bool.eq_iff_iff, isSome_getElem?]
  simp [contains]

end Dictionary
end CommandShell

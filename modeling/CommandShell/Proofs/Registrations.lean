import CommandShell.Proofs.Names
import Mathlib.Data.List.Induction
import Mathlib.Data.List.Sort

/-!
# `CommandShell.Proofs.Registrations` — a registry as the history of its names

What a name is bound to is decided by the last operation that touched its key: a registration that was
accepted, or a removal. A registration trims its name and a removal does not, so the two touch a key under
different names, but each operation touches one key at most. All that a registry shows follows from this:
it is a finite map, and the order of operations on different keys is lost.

## Contents
- `Registry.Accepts`, with `Registry.register_eq_ok_iff`, `Registry.register_eq_error_iff` and
  `Registry.snd_register_of_error`.
- `Registry.Operation`, `Registry.apply` and `Registry.after`.
- `Registry.Operation.Touches` and `Registry.boundBy`, what a history binds to a key.
- `Registry.after_refines`.
-/

namespace CommandShell
namespace Registry

variable {σ : Type}

/-! ## Registration -/

instance (key : String) : Decidable (IsKey key) :=
  inferInstanceAs (Decidable (_ = false))

theorem isKey_iff {key : String} :
    IsKey key ↔ key ≠ "" ∧ ∀ c ∈ key.toList, Text.isBlank c = false := by
  simp [IsKey]

/-- A binding can be kept under a name: the name has a key, and every parameter a conversion. -/
def Accepts (types : Conversions) (name : String) (b : Binding σ) : Prop :=
  IsKey (keyOf name) ∧ ∀ p ∈ b.profile.params, types.supports p.type = true

instance (types : Conversions) (name : String) (b : Binding σ) : Decidable (Accepts types name b) :=
  inferInstanceAs (Decidable (_ ∧ _))

/-- A binding that can be kept is kept under the key of its name. -/
theorem register_of_accepts {types : Conversions} {name : String} {b : Binding σ} (r : Registry σ)
    (h : Accepts types name b) :
    r.register types name b = (.ok (), ⟨r.bindings.insert (keyOf name) b⟩) := by
  obtain ⟨hkey, hparams⟩ := h
  have hfind : b.profile.params.find? (fun p => !types.supports p.type) = none := by
    rw [List.find?_eq_none]
    intro p hp
    simp [hparams p hp]
  unfold register
  rw [hfind, if_neg (by simp [show _ = false from hkey])]

/-- A name is refused for what it is, or for its first parameter that no text converts to. -/
theorem register_eq_error_iff {r : Registry σ} {types : Conversions} {name : String} {b : Binding σ}
    {e : ShellError} :
    (r.register types name b).1 = .error e ↔
      (¬ IsKey (keyOf name) ∧ e = .command ("invalid binding name: '" ++ name ++ "'")) ∨
      (IsKey (keyOf name) ∧ ∃ p, b.profile.params.find? (fun p => !types.supports p.type) = some p ∧
        e = .unsupportedType (keyOf name) p.name p.type.name) := by
  unfold register IsKey
  dsimp only
  by_cases hkey : (keyOf name).isEmpty || (keyOf name).toList.any Text.isBlank
  · simp [hkey, eq_comm]
  · simp only [hkey]
    cases b.profile.params.find? fun p => !types.supports p.type with
    | some p => simp [eq_comm]
    | none => simp

/-- One of the two conditions fails if a binding is refused, and the other way round. -/
theorem exists_error_iff {r : Registry σ} {types : Conversions} {name : String} {b : Binding σ} :
    (∃ e, (r.register types name b).1 = .error e) ↔ ¬ Accepts types name b := by
  simp only [register_eq_error_iff]
  constructor
  · rintro ⟨e, ⟨hkey, -⟩ | ⟨-, p, hp, -⟩⟩ ⟨hkey', hparams⟩
    · exact hkey hkey'
    · have hrefused := List.find?_some hp
      rw [hparams p (List.mem_of_find?_eq_some hp)] at hrefused
      cases hrefused
  · intro h
    by_cases hkey : IsKey (keyOf name)
    · cases hfind : b.profile.params.find? fun p => !types.supports p.type with
      | some p => exact ⟨_, .inr ⟨hkey, p, rfl, rfl⟩⟩
      | none =>
          have hparams : ∀ p ∈ b.profile.params, types.supports p.type = true := by
            simpa using List.find?_eq_none.mp hfind
          exact absurd ⟨hkey, hparams⟩ h
    · exact ⟨_, .inl ⟨hkey, rfl⟩⟩

theorem register_eq_ok_iff {r : Registry σ} {types : Conversions} {name : String} {b : Binding σ} :
    (r.register types name b).1 = .ok () ↔ Accepts types name b := by
  rw [← not_iff_not, ← exists_error_iff (r := r)]
  cases (r.register types name b).1 with
  | ok _ => simp
  | error e => simp

/-- A registration that is refused leaves the registry as it is. -/
theorem snd_register_of_error {r : Registry σ} {types : Conversions} {name : String} {b : Binding σ}
    {e : ShellError} (h : (r.register types name b).1 = .error e) : (r.register types name b).2 = r := by
  unfold register at h ⊢
  dsimp only at h ⊢
  split
  · rfl
  · next hkey =>
    rw [if_neg hkey] at h
    split at h
    · rfl
    · cases h

/-! ## Histories -/

/-- What is done to a registry: a registration, with the conversions there are at the time, or a
    removal. -/
inductive Operation (σ : Type) where
  | register (types : Conversions) (name : String) (b : Binding σ)
  | remove (name : String)

/-- The registry after an operation. -/
def apply (r : Registry σ) : Operation σ → Registry σ
  | .register types name b => (r.register types name b).2
  | .remove name => r.remove name

/-- The registry after some operations, done in order from the empty one. -/
def after (ops : List (Operation σ)) : Registry σ :=
  ops.foldl apply {}

/-- The operation decides what is bound to the key. -/
def Operation.Touches (key : String) : Operation σ → Prop
  | .register types name b => Accepts types name b ∧ keyOf name = key
  | .remove name => Text.lower name = key

instance (key : String) : DecidablePred (Operation.Touches key : Operation σ → Prop)
  | .register _ _ _ => inferInstanceAs (Decidable (_ ∧ _))
  | .remove _ => inferInstanceAs (Decidable (_ = _))

/-- The binding that the operation registers. -/
def Operation.binding? : Operation σ → Option (Binding σ)
  | .register _ _ b => some b
  | .remove _ => none

/-- What a history binds to a key: the binding of the last registration under it that was accepted, if
    the key has not been removed since. -/
def boundBy (ops : List (Operation σ)) (key : String) : Option (Binding σ) :=
  (ops.reverse.find? fun op => op.Touches key).bind Operation.binding?

/-! ## One operation -/

theorem after_concat (ops : List (Operation σ)) (op : Operation σ) :
    after (ops ++ [op]) = (after ops).apply op := by
  simp [after]

/-- The last operation decides about the key that it touches. -/
theorem boundBy_concat (ops : List (Operation σ)) (op : Operation σ) (key : String) :
    boundBy (ops ++ [op]) key = if op.Touches key then op.binding? else boundBy ops key := by
  unfold boundBy
  rw [List.reverse_concat, List.find?_cons]
  by_cases h : op.Touches key <;> simp [h]

theorem apply_of_not_accepts {types : Conversions} {name : String} {b : Binding σ} (r : Registry σ)
    (h : ¬ Accepts types name b) : r.apply (.register types name b) = r := by
  obtain ⟨e, he⟩ := (exists_error_iff (r := r)).mpr h
  exact snd_register_of_error he

/-- An operation sets the key that it touches and leaves the others alone. -/
theorem getElem?_apply (r : Registry σ) (op : Operation σ) (key : String) :
    (r.apply op).bindings[key]? = if op.Touches key then op.binding? else r.bindings[key]? := by
  cases op with
  | register types name b =>
      by_cases h : Accepts types name b
      · simp only [apply, register_of_accepts r h, Dictionary.getElem?_insert, Operation.Touches, h,
          true_and]
        rfl
      · simp [apply_of_not_accepts r h, Operation.Touches, h]
  | remove name =>
      simp only [apply, remove, Dictionary.getElem?_erase, Operation.Touches]
      rfl

/-! ## Whole histories -/

/-- The registry holds what the history binds. The induction takes the last operation off. -/
theorem getElem?_after (ops : List (Operation σ)) (key : String) :
    (after ops).bindings[key]? = boundBy ops key := by
  induction ops using List.reverseRecOn with
  | nil => rfl
  | append_singleton ops op ih => rw [after_concat, getElem?_apply, boundBy_concat, ih]

/-- Only accepted registrations bind anything. -/
theorem isKey_of_boundBy {ops : List (Operation σ)} {key : String} {b : Binding σ}
    (h : boundBy ops key = some b) : IsKey key := by
  obtain ⟨op, hop, hb⟩ := Option.bind_eq_some_iff.mp h
  have htouches : op.Touches key := by simpa using List.find?_some hop
  cases op with
  | register types name b =>
      rw [← htouches.2]
      exact htouches.1.1
  | remove name => cases hb

/-- What is bound to a key depends on the operations that touch it alone. -/
theorem boundBy_eq_of_filter_eq {ops ops' : List (Operation σ)} {key : String}
    (h : ops'.filter (fun op => op.Touches key) = ops.filter fun op => op.Touches key) :
    boundBy ops' key = boundBy ops key := by
  unfold boundBy
  rw [← List.head?_filter, ← List.head?_filter, List.filter_reverse, List.filter_reverse, h]

/-! ## Listings -/

/-- The bindings are listed in order of their names, and no name is listed twice. -/
theorem visible_pairwise (r : Registry σ) : r.visible.Pairwise fun a b => a.1 < b.1 := by
  let listed := r.bindings.entries.filter fun entry => entry.2.profile.kind ≠ .hidden
  have hsorted : r.visible.Pairwise fun a b => a.1 ≤ b.1 := by
    have hle : r.visible.Pairwise fun a b => decide (a.1 ≤ b.1) = true :=
      List.pairwise_mergeSort (by simpa using fun a _ b _ c _ => String.le_trans)
        (by simpa using fun a _ b _ => String.le_total a b) listed
    exact hle.imp of_decide_eq_true
  have hdistinct : r.visible.Pairwise fun a b => a.1 ≠ b.1 := by
    have hlisted : (listed.map (·.1)).Nodup := r.bindings.distinct.sublist (List.filter_sublist.map _)
    exact List.pairwise_map.mp (((List.mergeSort_perm listed _).map _).nodup_iff.mpr hlisted)
  refine (hsorted.and hdistinct).imp ?_
  rintro a b ⟨hle, hne⟩
  by_contra hlt
  exact hne (String.le_antisymm hle (String.not_lt.mp hlt))

/-- The listing has the bindings of the registry that are not hidden. -/
theorem mem_visible {r : Registry σ} {key : String} {b : Binding σ} :
    (key, b) ∈ r.visible ↔ r.bindings[key]? = some b ∧ b.profile.kind ≠ .hidden := by
  simp [visible, Dictionary.mem_entries]

/-- Lists in strict order of their names are equal if they have the same entries. -/
theorem eq_of_pairwise_lt {α : Type} {l l' : List (String × α)} (h : l.Pairwise fun a b => a.1 < b.1)
    (h' : l'.Pairwise fun a b => a.1 < b.1) (hmem : ∀ entry, entry ∈ l ↔ entry ∈ l') : l = l' := by
  have : Std.Irrefl fun a b : String × α => a.1 < b.1 := ⟨fun a => String.lt_irrefl a.1⟩
  have : Std.Antisymm fun a b : String × α => a.1 < b.1 :=
    ⟨fun a b hab hba => absurd hba (String.lt_asymm hab)⟩
  exact h.eq_of_mem_iff h' hmem

/-- Two registries with the same bindings list the same, in whatever order their entries stand. -/
theorem visible_congr {r r' : Registry σ} (h : ∀ key : String, r.bindings[key]? = r'.bindings[key]?) :
    r.visible = r'.visible := by
  refine eq_of_pairwise_lt r.visible_pairwise r'.visible_pairwise fun ⟨key, b⟩ => ?_
  rw [mem_visible, mem_visible, h]

theorem completions_sublist (r : Registry σ) (beginning : String) :
    (r.completions beginning).Sublist (r.visible.map (·.1)) :=
  List.filter_sublist

theorem mem_completions {r : Registry σ} {beginning name : String} :
    name ∈ r.completions beginning ↔
      name ∈ r.visible.map (·.1) ∧ (Text.lower beginning).toList <+: name.toList := by
  rw [completions, List.mem_filter, List.isPrefixOf_iff_prefix]

/-! ## The registry as a map -/

/-- After any registrations and removals the registry is the map that its history binds. A lookup finds
    what is bound to the lower-case form of the name. Keys are not empty and have no white space in them,
    and a registration that is refused changes nothing. What is not hidden is listed in strict order of
    the keys, whatever the order in which different keys were touched; the completions of a text are the
    listed names that begin with its lower-case form; and the size counts the keys. -/
theorem after_refines (ops : List (Operation σ)) :
    (∀ name, (after ops).lookup? name = boundBy ops (Text.lower name) ∧
      (after ops).contains name = (boundBy ops (Text.lower name)).isSome) ∧
    (∀ (key : String) b, (after ops).bindings[key]? = some b →
      boundBy ops key = some b ∧ key ≠ "" ∧ ∀ c ∈ key.toList, Text.isBlank c = false) ∧
    (∀ types name b,
      ((∃ e, ((after ops).register types name b).1 = .error e) ↔ ¬ Accepts types name b) ∧
      (¬ Accepts types name b → ((after ops).register types name b).2 = after ops ∧
        after (ops ++ [.register types name b]) = after ops)) ∧
    ((after ops).visible.Pairwise (fun a b => a.1 < b.1) ∧
      ∀ key b, (key, b) ∈ (after ops).visible ↔ boundBy ops key = some b ∧ b.profile.kind ≠ .hidden) ∧
    (∀ ops' : List (Operation σ),
      (∀ key, ops'.filter (fun op => op.Touches key) = ops.filter fun op => op.Touches key) →
        (after ops').visible = (after ops).visible) ∧
    (∀ beginning, ((after ops).completions beginning).Sublist ((after ops).visible.map (·.1)) ∧
      ∀ name, name ∈ (after ops).completions beginning ↔
        name ∈ (after ops).visible.map (·.1) ∧ (Text.lower beginning).toList <+: name.toList) ∧
    ∃ keys : List String, keys.Nodup ∧ (∀ key, key ∈ keys ↔ (boundBy ops key).isSome = true) ∧
      (after ops).size = keys.length := by
  refine ⟨?_, ?_, ?_, ⟨visible_pairwise _, ?_⟩, ?_, ?_, ?_⟩
  · intro name
    refine ⟨getElem?_after ops _, ?_⟩
    rw [contains, Dictionary.contains_eq_isSome, getElem?_after]
  · intro key b hb
    rw [getElem?_after] at hb
    exact ⟨hb, isKey_iff.mp (isKey_of_boundBy hb)⟩
  · intro types name b
    refine ⟨exists_error_iff, fun h => ?_⟩
    have hsame := apply_of_not_accepts (after ops) h
    exact ⟨hsame, (after_concat ops _).trans hsame⟩
  · intro key b
    rw [mem_visible, getElem?_after]
  · intro ops' hsame
    refine visible_congr fun key => ?_
    rw [getElem?_after, getElem?_after, boundBy_eq_of_filter_eq (hsame key)]
  · intro beginning
    exact ⟨completions_sublist _ _, fun name => mem_completions⟩
  · refine ⟨_, (after ops).bindings.distinct, ?_, (List.length_map _).symm⟩
    intro key
    rw [← Dictionary.isSome_getElem?, getElem?_after]

end Registry
end CommandShell

import MachineMonitor.Json.Decode

/-!
# Looking up members

What a reader of members finds depends on the keys alone: on how many members have the key that is
asked for, and on the value of the only one. So the order of the members does not matter, neither to
the readers of an object nor to whether it can be held in memory.

Results:
* `Members.required?_perm`, `Members.withDefault?_perm`, `Members.optional?_perm`: readers of
  members do not depend on their order.
* `Value.isReadable_ofFields`: an object is readable if its fields are.
-/

namespace MachineMonitor.Json

namespace Members

/-- Members whose keys have a text. -/
def named (fields : List (String × Value)) : Members := fields.map fun (key, v) => (some key, v)

@[simp] theorem named_nil : named [] = [] := rfl

@[simp] theorem named_cons (key : String) (v : Value) (fields : List (String × Value)) :
    named ((key, v) :: fields) = (some key, v) :: named fields := rfl

theorem ofFields_eq (fields : List (String × Value)) :
    Value.ofFields fields = .object (named fields) := rfl

theorem haveKeys_named (fields : List (String × Value)) : (named fields).haveKeys = true := by
  simp [haveKeys, named]

/-! ## Looking up a key -/

@[simp] theorem under_nil (key : String) : under [] key = [] := rfl

@[simp] theorem under_cons (k key : String) (v : Value) (members : Members) :
    under ((some k, v) :: members) key =
      if k = key then v :: under members key else under members key := by
  by_cases h : k = key <;> simp [under, h]

theorem under_named_eq_nil {fields : List (String × Value)} {key : String}
    (h : ∀ f ∈ fields, f.1 ≠ key) : (named fields).under key = [] := by
  induction fields with
  | nil => rfl
  | cons f fields ih =>
    rw [named_cons, under_cons, if_neg (h f List.mem_cons_self),
      ih fun g hg => h g (List.mem_cons_of_mem f hg)]

/-- Members under other keys stay when those under some keys are taken out. -/
theorem without_named {fields : List (String × Value)} {keys : List String}
    (h : ∀ f ∈ fields, f.1 ∉ keys) : (named fields).without keys = named fields := by
  rw [without, List.filter_eq_self]
  rintro ⟨k, v⟩ hmem
  obtain ⟨⟨key, w⟩, hf, heq⟩ := List.mem_map.mp hmem
  obtain ⟨rfl, rfl⟩ := Prod.mk.inj heq
  simpa using h _ hf

/-! ## The order of members -/

variable {members members' : Members}

theorem under_perm (h : members.Perm members') (key : String) :
    (members.under key).Perm (members'.under key) :=
  h.filterMap _

theorem named_perm {fields fields' : List (String × Value)} (h : fields.Perm fields') :
    (named fields).Perm (named fields') :=
  h.map _

theorem haveKeys_perm (h : members.Perm members') : members.haveKeys = members'.haveKeys :=
  h.all_eq

theorem without_perm (h : members.Perm members') (keys : List String) :
    (members.without keys).Perm (members'.without keys) :=
  h.filter _

/-- Two orders of the same list are equal, or both have two elements at least. -/
theorem perm_cases {α : Type} {xs ys : List α} (h : xs.Perm ys) :
    xs = ys ∨ ∃ x x' xs', xs = x :: x' :: xs' ∧ ∃ y y' ys', ys = y :: y' :: ys' := by
  rcases xs with - | ⟨x, - | ⟨x', xs⟩⟩
  · exact Or.inl h.nil_eq
  · exact Or.inl h.singleton_eq
  · rcases ys with - | ⟨y, - | ⟨y', ys⟩⟩
    · exact absurd h.eq_nil (by simp)
    · exact absurd h.eq_singleton (by simp)
    · exact Or.inr ⟨x, x', xs, rfl, y, y', ys, rfl⟩

theorem optional?_perm (h : members.Perm members') (key : String) :
    members.optional? key = members'.optional? key := by
  unfold optional?
  obtain hunder | ⟨_, _, _, hx, _, _, _, hy⟩ := perm_cases (under_perm h key)
  · rw [hunder]
  · rw [hx, hy]

theorem required?_perm {α : Type} (h : members.Perm members') (key : String)
    (read : Value → Option α) : members.required? key read = members'.required? key read := by
  unfold required?
  obtain hunder | ⟨_, _, _, hx, _, _, _, hy⟩ := perm_cases (under_perm h key)
  · rw [hunder]
  · rw [hx, hy]

theorem withDefault?_perm {α : Type} (h : members.Perm members') (key : String) (default : α)
    (read : Value → Option α) :
    members.withDefault? key default read = members'.withDefault? key default read := by
  unfold withDefault?
  obtain hunder | ⟨_, _, _, hx, _, _, _, hy⟩ := perm_cases (under_perm h key)
  · rw [hunder]
  · rw [hx, hy]

end Members

namespace Value

/-! ## Readable values -/

theorem areReadable_eq_all (levels : Nat) (vs : List Value) :
    areReadable levels vs = vs.all (isReadable levels) := by
  induction vs with
  | nil => rfl
  | cons v vs ih => rw [areReadable, List.all_cons, ih]

theorem areMembersReadable_eq_all (levels : Nat) (members : Members) :
    areMembersReadable levels members =
      members.all fun (key, v) => key.isSome && isReadable levels v := by
  induction members with
  | nil => rfl
  | cons m members ih => rw [areMembersReadable, List.all_cons, ih]

theorem isReadable_object_perm {members members' : Members} (h : members.Perm members')
    (levels : Nat) : (object members).isReadable levels = (object members').isReadable levels := by
  rw [isReadable, isReadable, areMembersReadable_eq_all, areMembersReadable_eq_all, h.all_eq]

@[simp] theorem isReadable_text (levels : Nat) (s : String) :
    (text s).isReadable levels = true := by
  rw [text, isReadable]
  rfl

/-- A count that fits a 64-bit word has a finite double. -/
theorem isReadable_natural (levels : Nat) {n : Nat} (h : n < UInt64.size) :
    (natural n).isReadable levels = true := by
  rw [natural, isReadable, Number.isFinite, Double.isFiniteProduct, Double.leading, if_pos h]
  simp

@[simp] theorem isReadable_word (levels : Nat) (n : UInt32) :
    (natural n.toNat).isReadable levels = true :=
  isReadable_natural levels (Nat.lt_trans n.toNat_lt_size (by decide))

/-- **An object is readable** if its fields are, one level deeper. -/
theorem isReadable_ofFields {levels : Nat} {fields : List (String × Value)}
    (h : ∀ f ∈ fields, f.2.isReadable levels = true) :
    (ofFields fields).isReadable (levels + 1) = true := by
  rw [Members.ofFields_eq, isReadable, areMembersReadable_eq_all]
  simpa [Members.named] using h

/-- An array is readable if its elements are, one level deeper. -/
theorem isReadable_array {levels : Nat} {vs : List Value}
    (h : ∀ v ∈ vs, v.isReadable levels = true) : (array vs).isReadable (levels + 1) = true := by
  rw [isReadable, areReadable_eq_all]
  simpa using h

end Value

end MachineMonitor.Json

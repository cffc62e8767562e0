import MachineMonitor.Protocol.Message

/-!
# Plain texts

What is written as JSON holds no line feed and no other control character: a quoted text has them
escaped, and nothing else that is written could hold one. A message is therefore one line.

Results:
* `Json.plain_render`: the characters of a value stand for themselves.
* `Message.isPlain_printResponse`: so do those of a message, whatever its texts hold.
-/

namespace MachineMonitor

namespace Json

/-! ## Characters -/

/-- Characters that are no control characters of ASCII. -/
def Plain (cs : List Char) : Prop := ∀ c ∈ cs, Quoted.firstPlain ≤ c.toNat

/-- Is a text free of control characters? -/
def IsPlain (s : String) : Prop := Plain s.toList

instance (cs : List Char) : Decidable (Plain cs) := List.decidableBAll _ cs

@[simp] theorem plain_nil : Plain [] := fun _ h => nomatch h

@[simp] theorem plain_cons {c : Char} {cs : List Char} :
    Plain (c :: cs) ↔ Quoted.firstPlain ≤ c.toNat ∧ Plain cs := List.forall_mem_cons

@[simp] theorem plain_append {cs ds : List Char} : Plain (cs ++ ds) ↔ Plain cs ∧ Plain ds :=
  List.forall_mem_append

/-! ## Texts and numbers -/

theorem plain_digitChar : ∀ n < 16, Quoted.firstPlain ≤ (Nat.digitChar n).toNat := by decide

theorem plain_toDigits (n : Nat) : Plain (Nat.toDigits 10 n) := by
  intro c hc
  have hdigit := Nat.isDigit_of_mem_toDigits (by decide) (by decide) hc
  have hlow : 48 ≤ c.toNat := (Char.isDigit_iff_toNat.mp hdigit).1
  exact Nat.le_trans (by decide) hlow

theorem plain_escape (c : Char) : Plain (Quoted.escape c) := by
  unfold Quoted.escape
  -- the short escapes
  iterate 7
    split
    · decide
  split
  case isTrue hcontrol =>
    have hc : c.toNat < 32 := hcontrol
    have hhigh := plain_digitChar (c.toNat / 16) (by omega)
    have hlow := plain_digitChar (c.toNat % 16) (Nat.mod_lt _ (by decide))
    simp only [plain_cons, plain_nil, and_true]
    exact ⟨by decide, by decide, by decide, by decide, hhigh, hlow⟩
  case isFalse hplain => exact plain_cons.mpr ⟨Nat.le_of_not_lt hplain, plain_nil⟩

theorem plain_quoted (text : List Char) : Plain (Quoted.render text) := by
  have hescaped : Plain (text.flatMap Quoted.escape) := by
    intro d hd
    obtain ⟨c, -, hc⟩ := List.mem_flatMap.mp hd
    exact plain_escape c d hc
  exact plain_cons.mpr ⟨by decide, plain_append.mpr ⟨hescaped, by decide⟩⟩

theorem plain_renderSign (negative : Bool) : Plain (Number.renderSign negative) := by
  cases negative <;> decide

theorem plain_renderNumber (n : Number) : Plain n.render := by
  cases n with
  | natural n => exact plain_toDigits n
  | decimal negative mantissa exponent =>
    have hmantissa : Plain (Number.renderSign negative ++ Nat.toDigits 10 mantissa) :=
      plain_append.mpr ⟨plain_renderSign negative, plain_toDigits mantissa⟩
    have hexponent : Plain (Number.renderSign (exponent < 0) ++ Nat.toDigits 10 exponent.natAbs) :=
      plain_append.mpr ⟨plain_renderSign _, plain_toDigits _⟩
    exact plain_append.mpr ⟨hmantissa, plain_cons.mpr ⟨by decide, hexponent⟩⟩

theorem plain_renderString (text : Option String) : Plain (renderString text) := by
  cases text with
  | none => decide
  | some s => exact plain_quoted s.toList

theorem plain_member (key : Option String) {rest : List Char} (h : Plain rest) :
    Plain (renderString key ++ ':' :: rest) :=
  plain_append.mpr ⟨plain_renderString key, plain_cons.mpr ⟨by decide, h⟩⟩

/-! ## Values and messages -/

mutual

theorem plain_render : ∀ v : Value, Plain (render v)
  | .null | .bool true | .bool false | .array [] | .object [] => by decide
  | .number n => plain_renderNumber n
  | .string text => plain_renderString text
  | .array (v :: vs) => by
    have helements := plain_append.mpr ⟨plain_render v, plain_renderElements vs⟩
    exact plain_cons.mpr ⟨by decide, helements⟩
  | .object ((key, v) :: members) => by
    have hmembers := plain_append.mpr ⟨plain_render v, plain_renderMembers members⟩
    exact plain_cons.mpr ⟨by decide, plain_member key hmembers⟩

theorem plain_renderElements : ∀ vs : List Value, Plain (renderElements vs)
  | [] => by decide
  | v :: vs => by
    have helements := plain_append.mpr ⟨plain_render v, plain_renderElements vs⟩
    exact plain_cons.mpr ⟨by decide, helements⟩

theorem plain_renderMembers : ∀ members : Members, Plain (renderMembers members)
  | [] => by decide
  | (key, v) :: members => by
    have hmembers := plain_append.mpr ⟨plain_render v, plain_renderMembers members⟩
    exact plain_cons.mpr ⟨by decide, plain_member key hmembers⟩

end

theorem isPlain_print (v : Value) : IsPlain v.print := by
  rw [IsPlain, Value.print, String.toList_ofList]
  exact plain_render v

end Json

/-- **A message is written without control characters**, whatever its texts hold. -/
theorem Message.isPlain_printResponse (m : Message Response) : Json.IsPlain m.printResponse :=
  Json.isPlain_print _

end MachineMonitor

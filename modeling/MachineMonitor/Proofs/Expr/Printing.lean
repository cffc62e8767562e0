import MachineMonitor.Machine
import MachineMonitor.Proofs.Expr.Denotation
import MachineMonitor.Proofs.Expr.Layout

/-!
# Reading a printed expression

An expression tree over words and registers is printed as a token list that derives it, with at
least the parentheses that the grammar requires, and the tokens are laid out with any number of
spaces. A word is written in decimal or in hexadecimal, with letters in either case.

Results:
* `evalOperand_of_spells`: a printed operand has the value of its atom.
* `exists_prints`: every tree can be printed.
* `evaluate_of_spaced`: a printed text within the limits has the value of its tree.
-/

namespace MachineMonitor.Expr

/-- What stands at the leaves of a tree: words and registers. -/
inductive Atom where
  | literal (value : UInt32)
  | register (r : Register)
  deriving DecidableEq, Repr

/-- The value of an atom. -/
def Atom.denote {τ : Type} [Target τ] (t : τ) : Atom → Except EvalError UInt32
  | .literal value => .ok value
  | .register r => (Target.readRegister t r.name).mapError fun e => .unknownRegister e.name

/-- A token that is a way to write an atom. -/
inductive Spells : Token → Atom → Prop
  | decimal {text : String} {value : UInt32} (h : Numeral.Denotes 10 text.toList value.toNat) :
      Spells ⟨.number, text⟩ (.literal value)
  | hexadecimal {text : String} {value : UInt32} {x : Char} {digits : List Char}
      (htext : text.toList = '0' :: x :: digits) (hx : x = 'x' ∨ x = 'X')
      (h : Numeral.Denotes 16 digits value.toNat) : Spells ⟨.hexNumber, text⟩ (.literal value)
  | register {text : String} {r : Register} (htext : text.toList = '$' :: r.name.toList) :
      Spells ⟨.register, text⟩ (.register r)

/-- A token that is an operand or is written as its sign. -/
def Token.IsPrinted (t : Token) : Prop :=
  t.kind.isOperand = true ∨ t.kind.sign? = some t.text.toList

instance (t : Token) : Decidable t.IsPrinted :=
  inferInstanceAs (Decidable (_ ∨ _))

/-- A token list that a tree is printed as. -/
def Prints (e : Tree Atom) (ts : List Token) : Prop :=
  Derives Spells 1 ts e ∧ ∀ t ∈ ts, t.IsPrinted

/-! ## Operands -/

theorem isOperand_of_spells {t : Token} {a : Atom} (h : Spells t a) : t.kind.isOperand = true := by
  cases h <;> rfl

theorem spelled_of_spells {t : Token} {a : Atom} (h : Spells t a) :
    Spelled t.kind t.text.toList := by
  cases h with
  | decimal h => exact .number h
  | hexadecimal htext hx h =>
    rw [htext]
    exact .hexNumber hx h
  | register htext =>
    rw [htext]
    exact .register _

theorem dropBytes?_prefix {x : Char} (hx : x = 'x' ∨ x = 'X') (digits : List Char) :
    Numeral.dropBytes? 2 ('0' :: x :: digits) = some digits := by
  have h0 : ('0' : Char).utf8Size = 1 := by decide
  have hx1 : x.utf8Size = 1 := by rcases hx with rfl | rfl <;> decide
  simp [Numeral.dropBytes?, h0, hx1]

theorem registerName_eq {text : String} {cs : List Char} (h : text.toList = '$' :: cs) :
    registerName text = String.ofList cs := by
  simp only [registerName, h]

/-- **A printed operand** has the value of its atom. -/
theorem evalOperand_of_spells {τ : Type} [Target τ] (t : τ) {token : Token} {a : Atom}
    (h : Spells token a) : evalOperand t token = a.denote t := by
  cases h with
  | decimal h =>
    rw [evalOperand, Numeral.word?_of_denotes_toNat (by decide) h]
    rfl
  | hexadecimal htext hx h =>
    rw [evalOperand, htext, dropBytes?_prefix hx]
    simp only [Numeral.word?_of_denotes_toNat (by decide) h]
    rfl
  | @register text r htext =>
    rw [evalOperand, registerName_eq htext, String.ofList_toList, Atom.denote]
    cases Target.readRegister t r.name <;> rfl

/-! ## Every tree can be printed -/

theorem exists_spells (a : Atom) : ∃ t, Spells t a := by
  cases a with
  | literal value =>
    obtain ⟨cs, h⟩ := Numeral.exists_denotes (show 1 < 10 by decide) value.toNat
    rw [← String.toList_ofList (l := cs)] at h
    exact ⟨_, .decimal h⟩
  | register r => exact ⟨⟨.register, String.ofList ('$' :: r.name.toList)⟩, .register (by simp)⟩

theorem exists_isPrinted {k : TokenKind} (h : k.sign?.isSome = true) :
    ∃ t : Token, t.kind = k ∧ t.IsPrinted := by
  obtain ⟨cs, hcs⟩ := Option.isSome_iff_exists.mp h
  refine ⟨⟨k, String.ofList cs⟩, rfl, Or.inr ?_⟩
  rw [String.toList_ofList]
  exact hcs

/-- A tree that is printed with parentheses around it. -/
theorem exists_parens {e : Tree Atom} {ts : List Token} (h : Prints e ts) :
    ∃ us, Derives Spells primaryLevel us e ∧ ∀ t ∈ us, t.IsPrinted := by
  obtain ⟨l, hl, hl'⟩ := exists_isPrinted (k := .lparen) rfl
  obtain ⟨r, hr, hr'⟩ := exists_isPrinted (k := .rparen) rfl
  refine ⟨l :: (ts ++ [r]), .parens hl h.1 hr, ?_⟩
  rw [List.forall_mem_cons, List.forall_mem_append, List.forall_mem_singleton]
  exact ⟨hl', h.2, hr'⟩

/-- **Every tree can be printed.** -/
theorem exists_prints (e : Tree Atom) : ∃ ts, Prints e ts := by
  induction e with
  | operand a =>
    obtain ⟨t, ht⟩ := exists_spells a
    refine ⟨[t], (Derives.operand ht).mono (by decide), ?_⟩
    rw [List.forall_mem_singleton]
    exact Or.inl (isOperand_of_spells ht)
  | unary op e ih =>
    obtain ⟨ts, h⟩ := ih
    obtain ⟨us, hus, hprinted⟩ := exists_parens h
    obtain ⟨t, ht, ht'⟩ := exists_isPrinted (k := op.kind) (by cases op <;> rfl)
    refine ⟨t :: us, (Derives.unary ht (hus.mono (by decide))).mono (by decide), ?_⟩
    exact List.forall_mem_cons.mpr ⟨ht', hprinted⟩
  | binary op left right ihl ihr =>
    obtain ⟨ls, hls⟩ := ihl
    obtain ⟨rs, hrs⟩ := ihr
    obtain ⟨us, hus, hprinted⟩ := exists_parens hls
    obtain ⟨vs, hvs, hprinted'⟩ := exists_parens hrs
    obtain ⟨t, ht, ht'⟩ := exists_isPrinted (k := op.kind) (by cases op <;> rfl)
    have hlt : op.level + 1 ≤ primaryLevel := Nat.le_succ_of_le op.level_lt
    refine ⟨us ++ t :: vs, (Derives.binary rfl (hus.mono (Nat.le_of_succ_le hlt)) ht
      (hvs.mono hlt)).mono op.level_pos, ?_⟩
    exact List.forall_mem_append.mpr ⟨hprinted, List.forall_mem_cons.mpr ⟨ht', hprinted'⟩⟩

/-! ## Reading -/

/-- The operands of what derives a tree are printed atoms. -/
theorem Derives.forall_operand {n : Nat} {ts : List Token} {e : Tree Atom}
    (h : Derives Spells n ts e) : ∀ t ∈ ts, t.kind.isOperand = true → ∃ a, Spells t a := by
  induction h with
  | operand h =>
    rw [List.forall_mem_singleton]
    exact fun _ => ⟨_, h⟩
  | parens hl _ hr ih =>
    rw [List.forall_mem_cons, List.forall_mem_append, List.forall_mem_singleton, hl, hr]
    exact ⟨fun h => absurd h (by decide), ih, fun h => absurd h (by decide)⟩
  | @unary t ts op e ht _ ih =>
    rw [List.forall_mem_cons]
    refine ⟨fun h => ?_, ih⟩
    rw [ht, op.isOperand_kind] at h
    exact absurd h (by simp)
  | @binary n t ls rs op left right _ _ ht _ ihl ihr =>
    rw [List.forall_mem_append, List.forall_mem_cons]
    refine ⟨ihl, fun h => ?_, ihr⟩
    rw [ht, op.isOperand_kind] at h
    exact absurd h (by simp)
  | tighter _ ih => exact ih

theorem Prints.spelled {e : Tree Atom} {ts : List Token} (h : Prints e ts) :
    ∀ t ∈ ts, Spelled t.kind t.text.toList := by
  intro t ht
  rcases h.2 t ht with hop | hsign
  · obtain ⟨a, ha⟩ := h.1.forall_operand t ht hop
    exact spelled_of_spells ha
  · exact .sign hsign

/-- A printed text within the limits is read as its tokens, each of its own kind. -/
theorem tokenize_of_spaced {limits : Limits} {e : Tree Atom} {ts : List Token} {text : String}
    (h : Prints e ts) (hs : Spaced ts text.toList) (hcount : ts.length ≤ limits.maxTokens)
    (hlen : ∀ t ∈ ts, t.text.utf8ByteSize ≤ limits.maxTokenLen) :
    tokenize limits text = .ok ⟨ts.map Token.lexical, limits⟩ := by
  obtain ⟨halt, -⟩ := h.1.alternates fun _ _ => isOperand_of_spells
  obtain ⟨htok, hstuck⟩ := tokens_scanFrom hs h.spelled halt 0
  refine tokenize_eq_ok htok hstuck ?_ ?_
  · rwa [List.length_map]
  · rw [List.forall_mem_map]
    exact hlen

variable {τ : Type} [Target τ]

/-- **Reading a printed expression.** However a tree is printed, a text within the limits evaluates
to what the tree denotes, be it a word or the first error. -/
theorem evaluate_of_spaced (limits : Limits) (t : τ) {e : Tree Atom} {ts : List Token}
    {text : String} (h : Prints e ts) (hs : Spaced ts text.toList)
    (hcount : ts.length ≤ limits.maxTokens)
    (hlen : ∀ token ∈ ts, token.text.utf8ByteSize ≤ limits.maxTokenLen) :
    evaluate limits t text = e.denote (Atom.denote t) (Target.readMemory t · 4) := by
  have hleaf : ∀ token a, Spells token a → token.kind.isOperand = true := fun _ _ =>
    isOperand_of_spells
  rw [evaluate, tokenize_of_spaced h hs hcount hlen]
  show evalTokens t (markUnary (ts.map Token.lexical)) = _
  rw [markUnary_lexical (h.1.alternates hleaf).1]
  exact evalTokens_of_derives t hleaf (fun _ _ => evalOperand_of_spells t) h.1

/-- `3 --0xa*(5)` is `3` less the product of `-10` and `5`. -/
theorem evaluate_of_spaced_minus : evaluate {} ({} : Machine) "3 --0xa*(5)" = .ok 53 := by
  have h3 : Spells ⟨.number, "3"⟩ (.literal 3) := .decimal (.digit (by decide) (by decide))
  have h5 : Spells ⟨.number, "5"⟩ (.literal 5) := .decimal (.digit (by decide) (by decide))
  have h10 : Spells ⟨.hexNumber, "0xa"⟩ (.literal 10) :=
    .hexadecimal rfl (Or.inl rfl) (.digit (d := 10) (by decide) (by decide))
  have hneg : Derives Spells 5 [⟨.negate, "-"⟩, ⟨.hexNumber, "0xa"⟩]
      (.unary .negate (.operand (.literal 10))) :=
    (Derives.unary rfl ((Derives.operand h10).mono (by decide))).mono (by decide)
  have hparens : Derives Spells 6 [⟨.lparen, "("⟩, ⟨.number, "5"⟩, ⟨.rparen, ")"⟩]
      (.operand (.literal 5)) :=
    (Derives.parens rfl ((Derives.operand h5).mono (by decide)) rfl).mono (by decide)
  have hmul := Derives.binary (t := ⟨.star, "*"⟩) (show BinaryOp.mul.level = 5 from rfl) hneg rfl
    hparens
  have hsub := Derives.binary (t := ⟨.minus, "-"⟩) (show BinaryOp.sub.level = 4 from rfl)
    ((Derives.operand h3).mono (by decide)) rfl hmul
  have hspaced : Spaced [⟨.number, "3"⟩, ⟨.minus, "-"⟩, ⟨.negate, "-"⟩, ⟨.hexNumber, "0xa"⟩,
      ⟨.star, "*"⟩, ⟨.lparen, "("⟩, ⟨.number, "5"⟩, ⟨.rparen, ")"⟩] "3 --0xa*(5)".toList :=
    .token (.space (.token (.token (.token (.token (.token (.token (.token .nil))))))))
  exact (evaluate_of_spaced {} ({} : Machine) ⟨hsub.mono (by decide), by decide⟩ hspaced (by decide)
    (by decide)).trans rfl

end MachineMonitor.Expr

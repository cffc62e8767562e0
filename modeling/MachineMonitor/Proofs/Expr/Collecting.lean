import MachineMonitor.Proofs.Expr.Priority
import MachineMonitor.Proofs.Expr.Segmentation

/-!
# Collecting tokens while a text is read

A text may be scanned up to its end, or to where no rule matches, before its tokens are collected;
or each token may be collected before the next rule is looked for. The answer is the same, since a
scan does not depend on what was collected so far. So the limits have their say on the tokens of a
scan that knows nothing of them.

Results:
* `tokenize_eq_read`: collecting after a scan and in turn.
* `TokenBuffer.read_shift`: a text that stands further right.
-/

namespace MachineMonitor.Expr

/-- The error as it is reported when `n` more bytes stand in front of the text. -/
def LexError.shift (n : Nat) : LexError → LexError
  | noMatch position => noMatch (position + n)
  | tokenTooLong position len max => tokenTooLong (position + n) len max
  | tooManyTokens max => tooManyTokens max

/-! ## What becomes of a scan -/

namespace Scan

/-- The lexemes of a scan that make a token. -/
def tokenLexemes (s : Scan) : List Lexeme := s.withoutSpaces.lexemes

/-- What is answered when all tokens of a scan are collected. -/
def settle (s : Scan) (b : TokenBuffer) : Except LexError TokenBuffer :=
  match s.stuckAt with
  | some position => .error (.noMatch position)
  | none => .ok b

theorem settle_of_stuckAt {s : Scan} {p : Nat} (h : s.stuckAt = some p) (b : TokenBuffer) :
    s.settle b = .error (.noMatch p) := by
  rw [settle, h]

theorem settle_of_none {s : Scan} (h : s.stuckAt = none) (b : TokenBuffer) :
    s.settle b = .ok b := by
  rw [settle, h]

theorem of_settle_eq_error {s : Scan} {b : TokenBuffer} {e : LexError} (h : s.settle b = .error e) :
    ∃ p, s.stuckAt = some p ∧ e = .noMatch p := by
  cases hstuck : s.stuckAt with
  | none => exact absurd (h.symm.trans (settle_of_none hstuck b)) (by simp)
  | some p => exact ⟨p, rfl, Except.error.inj (h.symm.trans (settle_of_stuckAt hstuck b))⟩

/-- The tokens of a scan, collected in a buffer. -/
def collect (s : Scan) (b : TokenBuffer) : Except LexError TokenBuffer :=
  s.lexemes.foldlM TokenBuffer.add b >>= s.settle

theorem tokens_eq (s : Scan) : s.tokens = s.tokenLexemes.filterMap Lexeme.token? :=
  s.tokens_withoutSpaces.symm

theorem token?_of_mem {s : Scan} {l : Lexeme} (h : l ∈ s.tokenLexemes) :
    ∃ k, l.rule.kind? = some k ∧ l.token? = some ⟨k, l.text⟩ := by
  obtain ⟨-, hl⟩ := List.mem_filter.mp h
  cases hk : l.rule.kind? with
  | none => exact absurd (kind?_eq_none_iff.mp hk) (bne_iff_ne.mp hl)
  | some k => exact ⟨k, rfl, by rw [Lexeme.token?, hk]; rfl⟩

end Scan

theorem foldlM_add_filter (b : TokenBuffer) (ls : List Lexeme) :
    (ls.filter (·.rule != .spaces)).foldlM TokenBuffer.add b = ls.foldlM TokenBuffer.add b := by
  induction ls generalizing b with
  | nil => rfl
  | cons l ls ih =>
    rw [List.foldlM_cons]
    by_cases hl : l.rule = .spaces
    · have hadd : b.add l = .ok b := by
        rw [TokenBuffer.add, hl]
        rfl
      rw [List.filter_cons_of_neg (by simp [hl]), ih, hadd]
      rfl
    · rw [List.filter_cons_of_pos (by simp [hl]), List.foldlM_cons]
      exact bind_congr ih

/-- Spaces add nothing to a buffer. -/
theorem Scan.collect_withoutSpaces (s : Scan) (b : TokenBuffer) :
    s.withoutSpaces.collect b = s.collect b := by
  rw [collect, withoutSpaces, foldlM_add_filter]
  rfl

namespace TokenBuffer

/-! ## Reading and collecting in turn -/

/-- Reads the rest of a text, which begins at byte `position`. Each token is collected before the
next rule is looked for. -/
def read (b : TokenBuffer) (position : Nat) : List Char → Except LexError TokenBuffer
  | [] => .ok b
  | c :: cs =>
    match Rule.first? (c :: cs) with
    | none => .error (.noMatch position)
    | some (rule, n) => do
      let text := String.ofList (c :: cs.take n)
      let b' ← b.add ⟨rule, position, text⟩
      b'.read (position + text.utf8ByteSize) (cs.drop n)
termination_by cs => cs.length
decreasing_by simp only [List.length_drop, List.length_cons]; omega

/-- Reading in turn is collecting after a scan: what was collected has no say in the scan. -/
theorem read_eq (b : TokenBuffer) (p : Nat) (cs : List Char) :
    b.read p cs = (scanFrom p cs).collect b := by
  unfold Scan.collect
  fun_induction read b p cs with
  | case1 b p =>
    rw [scanFrom_nil]
    rfl
  | case2 b p c cs h =>
    rw [scanFrom, h]
    rfl
  | case3 b p c cs r n h text ih =>
    rw [scanFrom, h]
    show _ = ((⟨r, p, text⟩ :: _ : List Lexeme).foldlM add b >>= _)
    rw [List.foldlM_cons, bind_assoc]
    exact bind_congr ih

section Reading

variable {b : TokenBuffer} {p : Nat}

theorem read_nil : b.read p [] = .ok b := by
  rw [read]

theorem read_of_unmatched {cs : List Char} (hne : cs ≠ []) (h : Rule.first? cs = none) :
    b.read p cs = .error (.noMatch p) := by
  obtain ⟨c, cs, rfl⟩ := List.exists_cons_of_ne_nil hne
  rw [read, h]

/-- The text of the first rule that matches is read first, and then what stands behind it. -/
theorem read_append {n : Nat} {r : Rule} {cs rest : List Char} (hlen : cs.length = n + 1)
    (h : Rule.first? (cs ++ rest) = some (r, n)) :
    b.read p (cs ++ rest) = (b.add ⟨r, p, String.ofList cs⟩ >>= fun b' =>
      b'.read (p + (String.ofList cs).utf8ByteSize) rest) := by
  obtain ⟨c, cs, rfl⟩ := List.exists_cons_of_length_eq_add_one hlen
  obtain rfl := Nat.succ.inj hlen
  rw [List.cons_append] at h ⊢
  rw [read, h]
  simp only [List.take_left, List.drop_left]

theorem read_space (b : TokenBuffer) (p : Nat) (cs : List Char) :
    b.read p (' ' :: cs) = b.read (p + 1) cs := by
  rw [read_eq, ← Scan.collect_withoutSpaces, withoutSpaces_scanFrom_space,
    Scan.collect_withoutSpaces, read_eq]

theorem add_shift (n : Nat) (r : Rule) (text : String) :
    b.add ⟨r, p + n, text⟩ = (b.add ⟨r, p, text⟩).mapError (LexError.shift n) := by
  simp only [add, push]
  split
  · split_ifs <;> rfl
  · rfl

/-- **A text that stands further right** is read alike, and errors are reported further right. -/
theorem read_shift (n : Nat) (b : TokenBuffer) (p : Nat) (cs : List Char) :
    b.read (p + n) cs = (b.read p cs).mapError (LexError.shift n) := by
  fun_induction read b p cs with
  | case1 b p =>
    rw [read_nil]
    rfl
  | case2 b p c cs h =>
    rw [read_of_unmatched (List.cons_ne_nil c cs) h]
    rfl
  | case3 b p c cs r k h text ih =>
    rw [read, h]
    simp only [add_shift]
    cases b.add ⟨r, p, text⟩ with
    | error e => rfl
    | ok b' =>
      have hrest := ih b'
      rw [Nat.add_right_comm] at hrest
      exact hrest

end Reading

end TokenBuffer

/-- **Collecting after a scan and in turn** gives the same. -/
theorem tokenize_eq_read (limits : Limits) (input : String) :
    tokenize limits input = (TokenBuffer.empty limits).read 0 input.toList := by
  rw [TokenBuffer.read_eq]
  rfl

end MachineMonitor.Expr

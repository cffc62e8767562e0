import MachineMonitor.Proofs.Expr.Layout
import MachineMonitor.Proofs.Expr.Pattern
import MachineMonitor.Proofs.Outcome

/-!
# A text has one segmentation

The rules are tried in order and the first one that matches wins. This is always the longest match:
texts of different rules differ in their first characters, those of numbers in base 16 and base 10
apart, and of these two rules the first is tried first and never matches less. So the tokens of a
text are determined by the languages of the rules, whatever their order elsewhere.

Results:
* `Rule.isLongest_of_first?`: the first rule that matches, matches the longest text of any rule.
* `Munches`: a text begins with these tokens, each the longest at its place, and this rest is left.
* `exists_munches`, `scanFrom_of_munches`: every text has such a beginning up to where no rule
  matches, and a scan finds it.
* `Munches.unique`: the tokens up to there are determined.
* `tokenize_eq_ok_iff`, `tokenize_eq_noMatch_iff`: both outcomes by the scan of the text.
* `tokenize_longest_match`: what the tokens of a text are, and where it cannot be split into tokens.
-/

namespace MachineMonitor.Expr

namespace Rule

/-! ## First characters -/

/-- The character with which the texts of a rule begin; numbers begin with any digit. -/
def lead? : Rule → Option Char
  | spaces => some ' '
  | register => some '$'
  | hexNumber => some '0'
  | number => none
  | r => r.literal?.bind List.head?

/-- May a text of the rule begin with this character? -/
def Leads (r : Rule) (c : Char) : Prop :=
  match r.lead? with
  | some d => c = d
  | none => Numeral.isDigitIn 10 c = true

theorem exists_cons_of_mem {r : Rule} {u : List Char} (h : u ∈ r.language) :
    ∃ c cs, u = c :: cs ∧ r.Leads c := by
  cases r with
  | spaces =>
    obtain ⟨hne, hall⟩ := mem_spaces.mp h
    obtain ⟨c, cs, rfl⟩ := List.exists_cons_of_ne_nil hne
    exact ⟨c, cs, rfl, beq_iff_eq.mp (hall c List.mem_cons_self)⟩
  | register =>
    obtain ⟨name, -, rfl⟩ := mem_register.mp h
    exact ⟨_, _, rfl, rfl⟩
  | hexNumber =>
    obtain ⟨x, ds, rfl, -⟩ := mem_hexNumber.mp h
    exact ⟨_, _, rfl, rfl⟩
  | number =>
    obtain ⟨hne, hall⟩ := mem_number.mp h
    obtain ⟨c, cs, rfl⟩ := List.exists_cons_of_ne_nil hne
    exact ⟨c, cs, rfl, hall c List.mem_cons_self⟩
  | _ =>
    rw [(mem_language_of_literal rfl).mp h]
    exact ⟨_, _, rfl, rfl⟩

theorem mem_all (r : Rule) : r ∈ all := by
  cases r <;> decide

/-- Rules of which a text may begin with the same character are the same, or both for numbers. -/
theorem eq_or_number {r r' : Rule} {c : Char} (h : r.Leads c) (h' : r'.Leads c) :
    r = r' ∨ (r = hexNumber ∧ r' = number) ∨ (r = number ∧ r' = hexNumber) := by
  have hinj : ∀ r ∈ all, ∀ r' ∈ all, r.lead? ≠ none → r.lead? = r'.lead? → r = r' := by decide
  have hdigit : ∀ r ∈ all, r.lead?.any (Numeral.isDigitIn 10) = true → r = hexNumber := by decide
  have hnumber : ∀ r ∈ all, r.lead? = none → r = number := by decide
  unfold Leads at h h'
  cases hr : r.lead? with
  | none =>
    rw [hr] at h
    cases hr' : r'.lead? with
    | none => exact Or.inl ((hnumber r (mem_all r) hr).trans (hnumber r' (mem_all r') hr').symm)
    | some d =>
      rw [hr'] at h'
      obtain rfl : c = d := h'
      have hr' := hdigit r' (mem_all r') (by rw [hr']; exact h)
      exact Or.inr (Or.inr ⟨hnumber r (mem_all r) hr, hr'⟩)
  | some d =>
    rw [hr] at h
    obtain rfl : c = d := h
    cases hr' : r'.lead? with
    | none =>
      rw [hr'] at h'
      have hr := hdigit r (mem_all r) (by rw [hr]; exact h')
      exact Or.inr (Or.inl ⟨hr, hnumber r' (mem_all r') hr'⟩)
    | some d =>
      rw [hr'] at h'
      obtain rfl : c = d := h'
      exact Or.inl (hinj r (mem_all r) r' (mem_all r') (by rw [hr]; simp) (hr.trans hr'.symm))

/-- In front of a number in base 16, a number in base 10 is one digit long. -/
theorem length_le_one_of_hexNumber {u v cs : List Char} (hu : u ∈ hexNumber.language)
    (hpre : u <+: cs) (hv : v ∈ number.language) (hpre' : v <+: cs) : v.length ≤ 1 := by
  obtain ⟨x, ds, rfl, hx, -⟩ := mem_hexNumber.mp hu
  have hall := (mem_number.mp hv).2
  obtain ⟨us, rfl⟩ := hpre
  rcases v with - | ⟨c, - | ⟨d, v⟩⟩
  · simp
  · simp
  · obtain ⟨rfl, -⟩ := List.cons_prefix_cons.mp (List.cons_prefix_cons.mp hpre').2
    have hd := hall d (by simp)
    rcases hx with rfl | rfl <;> exact absurd hd (by decide)

/-- A text belongs to one rule at most. -/
theorem eq_of_mem_language {r r' : Rule} {u : List Char} (h : u ∈ r.language)
    (h' : u ∈ r'.language) : r = r' := by
  have hnot : u ∈ hexNumber.language → u ∉ number.language := fun hu hv => by
    have hle := length_le_one_of_hexNumber hu (List.prefix_refl u) hv (List.prefix_refl u)
    obtain ⟨x, ds, rfl, -⟩ := mem_hexNumber.mp hu
    exact absurd hle (by simp)
  obtain ⟨c, cs, rfl, hc⟩ := exists_cons_of_mem h
  obtain ⟨d, ds, heq, hd⟩ := exists_cons_of_mem h'
  obtain ⟨rfl, -⟩ := List.cons.inj heq
  rcases eq_or_number hc hd with rfl | ⟨rfl, rfl⟩ | ⟨rfl, rfl⟩
  · rfl
  · exact absurd h' (hnot h)
  · exact absurd h (hnot h')

/-! ## The longest text of any rule -/

theorem mem_before_number {before after : List Rule} (h : all = before ++ number :: after) :
    hexNumber ∈ before := by
  have hmem := mem_all hexNumber
  have hpairwise : all.Pairwise fun r r' => ¬ (r = number ∧ r' = hexNumber) := by decide
  rw [h] at hmem hpairwise
  have hafter := (List.pairwise_cons.mp (List.pairwise_append.mp hpairwise).2.1).1
  rcases List.mem_append.mp hmem with hmem | hmem
  · exact hmem
  · rcases List.mem_cons.mp hmem with hmem | hmem
    · exact absurd hmem (by decide)
    · exact absurd ⟨rfl, rfl⟩ (hafter hexNumber hmem)

/-- The text of a rule stands at the beginning of an input, and no longer one of any rule does. -/
structure IsLongest (r : Rule) (u cs : List Char) : Prop where
  mem : u ∈ r.language
  front : u <+: cs
  le : ∀ (r' : Rule) (v : List Char), v ∈ r'.language → v <+: cs → v.length ≤ u.length

/-- No rule matches a nonempty text at the beginning of an input. -/
def Unmatched (cs : List Char) : Prop :=
  ∀ (r : Rule) (u : List Char), u ∈ r.language → u <+: cs → u = []

theorem attempt_eq_some {cs : List Char} {r r' : Rule} {n : Nat}
    (h : attempt cs r = some (r', n)) : r = r' ∧ r.matchLength cs = n + 1 := by
  unfold attempt at h
  split at h
  · exact absurd h (by simp)
  · rename_i hn
    obtain ⟨rfl, rfl⟩ := Prod.mk.inj (Option.some.inj h)
    exact ⟨rfl, hn⟩

theorem matchLength_of_attempt {cs : List Char} {r : Rule} (h : attempt cs r = none) :
    r.matchLength cs = 0 := by
  unfold attempt at h
  split at h
  · assumption
  · exact absurd h (by simp)

/-- **The first rule that matches, matches the longest text of any rule.** -/
theorem isLongest_of_first? {cs : List Char} {r : Rule} {n : Nat} (h : first? cs = some (r, n)) :
    n + 1 ≤ cs.length ∧ IsLongest r (cs.take (n + 1)) cs := by
  rw [first?_eq, List.findSome?_eq_some_iff] at h
  obtain ⟨before, r, after, hall, hr, hbefore⟩ := h
  obtain ⟨rfl, hlen⟩ := attempt_eq_some hr
  obtain ⟨hle, hmem, -⟩ := longest_matchLength r cs
  rw [hlen] at hle hmem
  have hmem := hmem (Nat.succ_ne_zero n)
  refine ⟨hle, hmem, List.take_prefix _ _, fun r' v hv hpre => ?_⟩
  rw [List.length_take_of_le hle]
  have hv' := (longest_matchLength r' cs).le v hv hpre
  -- both rules match something that begins with the same character
  obtain ⟨c, us, hcs, hc⟩ := exists_cons_of_mem hmem
  obtain ⟨d, vs, rfl, hd⟩ := exists_cons_of_mem hv
  obtain rfl : c = d := by
    obtain ⟨ws, rfl⟩ := hpre
    rw [List.cons_append, List.take_succ_cons] at hcs
    exact (List.cons.inj hcs).1.symm
  rcases eq_or_number hc hd with rfl | ⟨rfl, rfl⟩ | ⟨rfl, rfl⟩
  · rwa [hlen] at hv'
  · have := length_le_one_of_hexNumber hmem (List.take_prefix _ _) hv hpre
    omega
  · -- the rule for base 16 is tried before, and did not match
    have hzero := matchLength_of_attempt (hbefore hexNumber (mem_before_number hall))
    rw [hzero] at hv'
    exact Nat.le_trans hv' (Nat.zero_le _)

theorem unmatched_of_first? {cs : List Char} (h : first? cs = none) : Unmatched cs := by
  intro r u hu hpre
  have hr := matchLength_of_attempt (List.findSome?_eq_none_iff.mp h r (mem_all r))
  have hle := (longest_matchLength r cs).le u hu hpre
  rw [hr] at hle
  exact List.length_eq_zero_iff.mp (Nat.le_zero.mp hle)

theorem IsLongest.ne_nil {r : Rule} {u cs : List Char} (h : IsLongest r u cs) : u ≠ [] := by
  obtain ⟨c, us, rfl, -⟩ := exists_cons_of_mem h.mem
  exact List.cons_ne_nil c us

/-- The longest text at a place is still the longest if less of the input stands behind it. -/
theorem IsLongest.of_append {r : Rule} {u cs rest : List Char}
    (h : IsLongest r u (u ++ cs ++ rest)) : IsLongest r u (u ++ cs) :=
  ⟨h.mem, List.prefix_append u cs, fun r' v hv hpre =>
    h.le r' v hv (hpre.trans (List.prefix_append _ rest))⟩

theorem first?_of_unmatched {cs : List Char} (h : Unmatched cs) : first? cs = none := by
  cases hfirst : first? cs with
  | none => rfl
  | some found =>
    obtain ⟨-, hlongest⟩ := isLongest_of_first? (r := found.1) (n := found.2) hfirst
    exact absurd (h _ _ hlongest.mem hlongest.front) hlongest.ne_nil

/-- The rule with the longest text is the one that the rules in order find. -/
theorem first?_of_isLongest {r : Rule} {u cs : List Char} (h : IsLongest r u cs) :
    ∃ n, u.length = n + 1 ∧ first? cs = some (r, n) := by
  cases hfirst : first? cs with
  | none => exact absurd (unmatched_of_first? hfirst r u h.mem h.front) h.ne_nil
  | some found =>
    obtain ⟨r', n⟩ := found
    obtain ⟨hle, hlongest⟩ := isLongest_of_first? hfirst
    have hlen : u.length = n + 1 := by
      have hge := h.le r' _ hlongest.mem hlongest.front
      have hle' := hlongest.le r u h.mem h.front
      rw [List.length_take_of_le hle] at hge hle'
      exact Nat.le_antisymm hle' hge
    have hu : u = cs.take (n + 1) := by
      rw [← hlen]
      exact List.prefix_iff_eq_take.mp h.front
    subst hu
    obtain rfl := eq_of_mem_language h.mem hlongest.mem
    exact ⟨n, hlen, rfl⟩

end Rule

/-! ## Segmentations -/

/-- A text begins with these tokens, with any number of spaces in front of each and behind, and then
goes on with a rest. Each token has the longest text of any rule at its place, the rest included. -/
inductive Munches : List Token → List Char → List Char → Prop
  | nil (rest : List Char) : Munches [] rest rest
  | space {ts : List Token} {cs rest : List Char} (h : Munches ts cs rest) :
      Munches ts (' ' :: cs) rest
  | token {r : Rule} {k : TokenKind} {u cs rest : List Char} {ts : List Token}
      (hk : r.kind? = some k) (hu : r.IsLongest u (u ++ cs)) (h : Munches ts cs rest) :
      Munches (⟨k, String.ofList u⟩ :: ts) (u ++ cs) rest

/-- The texts that a token of a kind may have when it is read; prefix operators are never read. -/
def TokenKind.language (k : TokenKind) : Language Char :=
  {u | ∃ r : Rule, r.kind? = some k ∧ u ∈ r.language}

namespace Munches

variable {ts : List Token} {cs rest : List Char}

theorem spaces (h : Munches ts cs rest) {u : List Char} (hu : ∀ c ∈ u, (c == ' ') = true) :
    Munches ts (u ++ cs) rest := by
  induction u with
  | nil => exact h
  | cons c u ih =>
    obtain rfl : c = ' ' := beq_iff_eq.mp (hu c List.mem_cons_self)
    exact .space (ih fun d hd => hu d (List.mem_cons_of_mem _ hd))

theorem mem_language (h : Munches ts cs rest) : ∀ t ∈ ts, t.text.toList ∈ t.kind.language := by
  induction h with
  | nil => exact fun t ht => absurd ht List.not_mem_nil
  | space _ ih => exact ih
  | @token r k u _ _ _ hk hu _ ih =>
    intro t ht
    rcases List.mem_cons.mp ht with rfl | ht
    · exact ⟨r, hk, by rw [String.toList_ofList]; exact hu.mem⟩
    · exact ih t ht

/-- If nothing is left, the text is just the tokens and spaces around them. -/
theorem spaced (h : Munches ts cs rest) (hrest : rest = []) : Spaced ts cs := by
  induction h with
  | nil => rw [hrest]; exact .nil
  | space _ ih => exact .space (ih hrest)
  | @token _ k u _ _ _ _ _ _ ih =>
    have htoken := Spaced.token (t := ⟨k, String.ofList u⟩) (ih hrest)
    rwa [String.toList_ofList] at htoken

/-- What stands before the rest has the same tokens, by itself. -/
theorem exists_before (h : Munches ts cs rest) :
    ∃ before, cs = before ++ rest ∧ Munches ts before [] := by
  induction h with
  | nil rest => exact ⟨[], rfl, .nil []⟩
  | space _ ih =>
    obtain ⟨before, rfl, hbefore⟩ := ih
    exact ⟨' ' :: before, rfl, .space hbefore⟩
  | @token r k u cs rest ts hk hu _ ih =>
    obtain ⟨before, rfl, hbefore⟩ := ih
    rw [← List.append_assoc] at hu
    exact ⟨u ++ before, by rw [List.append_assoc], .token hk hu.of_append hbefore⟩

end Munches

theorem kind?_eq_none_iff {r : Rule} : r.kind? = none ↔ r = .spaces := by
  cases r <;> simp [Rule.kind?]

/-- **Every text begins with tokens** up to a place where no rule matches. -/
theorem exists_munches (cs : List Char) :
    ∃ ts rest, Munches ts cs rest ∧ Rule.Unmatched rest := by
  induction hlen : cs.length using Nat.strongRecOn generalizing cs with
  | ind n ih =>
    cases hfirst : Rule.first? cs with
    | none => exact ⟨[], cs, .nil cs, Rule.unmatched_of_first? hfirst⟩
    | some found =>
      obtain ⟨r, m⟩ := found
      obtain ⟨hle, hlongest⟩ := Rule.isLongest_of_first? hfirst
      have hdrop : (cs.drop (m + 1)).length < n := by
        rw [List.length_drop]
        omega
      obtain ⟨ts, rest, hts, hrest⟩ := ih _ hdrop (cs.drop (m + 1)) rfl
      have hsplit := List.take_append_drop (m + 1) cs
      cases hk : r.kind? with
      | none =>
        obtain rfl := kind?_eq_none_iff.mp hk
        have hspaces := hts.spaces (Rule.mem_spaces.mp hlongest.mem).2
        rw [hsplit] at hspaces
        exact ⟨ts, rest, hspaces, hrest⟩
      | some k =>
        have htake : Rule.IsLongest r (cs.take (m + 1)) (cs.take (m + 1) ++ cs.drop (m + 1)) := by
          rwa [hsplit]
        have htoken := Munches.token hk htake hts
        rw [hsplit] at htoken
        exact ⟨_, rest, htoken, hrest⟩

/-! ## The scan of a text -/

/-- **A scan finds the tokens** with which a text begins, up to where no rule matches. -/
theorem scanFrom_of_munches {ts : List Token} {cs rest : List Char} (h : Munches ts cs rest)
    (hrest : Rule.Unmatched rest) :
    ∃ before, cs = before ++ rest ∧ ∀ p, (scanFrom p cs).tokens = ts ∧
      (scanFrom p cs).stuckAt =
        if rest = [] then none else some (p + (String.ofList before).utf8ByteSize) := by
  induction h with
  | nil rest =>
    refine ⟨[], rfl, fun p => ?_⟩
    have hfirst := Rule.first?_of_unmatched hrest
    cases rest with
    | nil =>
      rw [scanFrom_nil]
      exact ⟨rfl, rfl⟩
    | cons c cs =>
      rw [scanFrom, hfirst]
      exact ⟨rfl, rfl⟩
  | @space ts cs rest _ ih =>
    obtain ⟨before, hcs, hscan⟩ := ih hrest
    refine ⟨' ' :: before, by rw [hcs, List.cons_append], fun p => ?_⟩
    have hsize : (String.ofList (' ' :: before)).utf8ByteSize =
        1 + (String.ofList before).utf8ByteSize := by
      rw [String.ofList_cons, String.utf8ByteSize_append]
      rfl
    obtain ⟨htok, hstuck⟩ := scanFrom_space p cs
    rw [htok, hstuck, hsize, ← Nat.add_assoc]
    exact hscan (p + 1)
  | @token r k u cs rest ts hk hu _ ih =>
    obtain ⟨before, hcs, hscan⟩ := ih hrest
    refine ⟨u ++ before, by rw [hcs, List.append_assoc], fun p => ?_⟩
    obtain ⟨n, hlen, hfirst⟩ := Rule.first?_of_isLongest hu
    obtain ⟨hlex, hstuck⟩ := scanFrom_append (p := p) hlen hfirst
    obtain ⟨htok, hstuck'⟩ := hscan (p + (String.ofList u).utf8ByteSize)
    have htoken : Lexeme.token? ⟨r, p, String.ofList u⟩ = some ⟨k, String.ofList u⟩ := by
      rw [Lexeme.token?, hk, Option.map_some]
    constructor
    · rw [Scan.tokens, hlex, List.filterMap_cons_some htoken]
      exact congrArg _ htok
    · rw [hstuck, hstuck', String.ofList_append, String.utf8ByteSize_append, Nat.add_assoc]

theorem Rule.unmatched_nil : Rule.Unmatched [] := fun _ _ _ hpre => List.prefix_nil.mp hpre

/-- **A text has one segmentation**: its tokens up to where no rule matches are determined. -/
theorem Munches.unique {ts ts' : List Token} {cs rest rest' : List Char} (h : Munches ts cs rest)
    (h' : Munches ts' cs rest') (hrest : Rule.Unmatched rest) (hrest' : Rule.Unmatched rest') :
    ts = ts' := by
  obtain ⟨_, -, hscan⟩ := scanFrom_of_munches h hrest
  obtain ⟨_, -, hscan'⟩ := scanFrom_of_munches h' hrest'
  exact (hscan 0).1.symm.trans (hscan' 0).1

theorem scan_of_munches {ts : List Token} {input : String} (h : Munches ts input.toList []) :
    (scan input).tokens = ts ∧ (scan input).stuckAt = none := by
  obtain ⟨_, -, hscan⟩ := scanFrom_of_munches h Rule.unmatched_nil
  exact hscan 0

/-- A scan goes up to some place where no rule matches, and its tokens are those that the text up
to there has by itself. -/
theorem exists_scan (input : String) :
    ∃ before after, input = before ++ after ∧ Rule.Unmatched after.toList ∧
      Munches (scan input).tokens input.toList after.toList ∧
      Munches (scan input).tokens before.toList [] ∧
      (scan input).stuckAt = if after = "" then none else some before.utf8ByteSize := by
  obtain ⟨ts, rest, hts, hrest⟩ := exists_munches input.toList
  obtain ⟨cs, hcs, hscan⟩ := scanFrom_of_munches hts hrest
  obtain ⟨htok, hstuck⟩ := hscan 0
  obtain ⟨cs', hcs', hbefore⟩ := hts.exists_before
  obtain rfl := List.append_cancel_right (hcs'.symm.trans hcs)
  have hempty : String.ofList rest = "" ↔ rest = [] := by
    rw [← String.toList_eq_nil_iff, String.toList_ofList]
  rw [scan, htok, hstuck]
  refine ⟨String.ofList cs', String.ofList rest, ?_, ?_, ?_, ?_, ?_⟩
  · rw [← String.ofList_append, ← hcs, String.ofList_toList]
  · rwa [String.toList_ofList]
  · rwa [String.toList_ofList]
  · rwa [String.toList_ofList]
  · simp only [hempty, Nat.zero_add]

/-! ## Limits -/

/-- Tokens within the limits. -/
structure Limits.Fit (limits : Limits) (ts : List Token) : Prop where
  count : ts.length ≤ limits.maxTokens
  size : ∀ t ∈ ts, t.text.utf8ByteSize ≤ limits.maxTokenLen

namespace TokenBuffer

variable {b b' : TokenBuffer}

/-- A lexeme that is taken gives its token, which is within the limits. -/
theorem of_add {l : Lexeme} (h : b.add l = .ok b')
    (hb : b.tokens.length ≤ b.limits.maxTokens) :
    b' = { b with tokens := b.tokens ++ l.token?.toList } ∧
      b'.tokens.length ≤ b'.limits.maxTokens ∧
      ∀ t ∈ l.token?, t.text.utf8ByteSize ≤ b.limits.maxTokenLen := by
  unfold add at h
  rw [Lexeme.token?]
  cases hk : l.rule.kind? with
  | none =>
    rw [hk] at h
    obtain rfl := Except.ok.inj h
    exact ⟨by simp, hb, by simp⟩
  | some k =>
    simp only [hk, push] at h
    split at h
    · exact absurd h (by simp)
    · split at h
      · exact absurd h (by simp)
      · rename_i hsize hcount
        obtain rfl := Except.ok.inj h
        refine ⟨rfl, ?_, fun t ht => ?_⟩
        · rw [List.length_append, List.length_singleton]
          exact Nat.lt_of_not_le hcount
        · obtain rfl := Option.some.inj ht
          exact Nat.le_of_not_lt hsize

/-- A lexeme is refused for the limits only. -/
theorem ne_noMatch_of_add {l : Lexeme} {e : LexError} (h : b.add l = .error e) (p : Nat) :
    e ≠ .noMatch p := by
  unfold add push at h
  split at h
  · split at h
    · obtain rfl := Except.error.inj h
      simp
    · split at h
      · obtain rfl := Except.error.inj h
        simp
      · exact absurd h (by simp)
  · exact absurd h (by simp)

theorem of_foldlM_add {ls : List Lexeme} (h : ls.foldlM add b = .ok b')
    (hb : b.tokens.length ≤ b.limits.maxTokens) :
    b' = { b with tokens := b.tokens ++ ls.filterMap Lexeme.token? } ∧
      b'.tokens.length ≤ b.limits.maxTokens ∧
      ∀ t ∈ ls.filterMap Lexeme.token?, t.text.utf8ByteSize ≤ b.limits.maxTokenLen := by
  induction ls generalizing b with
  | nil =>
    obtain rfl := Except.ok.inj h
    exact ⟨by simp, hb, by simp⟩
  | cons l ls ih =>
    rw [List.foldlM_cons] at h
    obtain ⟨b₁, hadd, hfold⟩ := ok_of_bind h
    obtain ⟨rfl, hcount, hl⟩ := of_add hadd hb
    obtain ⟨rfl, hcount', hls⟩ := ih hfold hcount
    rw [filterMap_token?_cons]
    refine ⟨by simp, hcount', fun t ht => ?_⟩
    rcases List.mem_append.mp ht with ht | ht
    · exact hl t (Option.mem_toList.mp ht)
    · exact hls t ht

theorem ne_noMatch_of_foldlM_add {ls : List Lexeme} {e : LexError}
    (h : ls.foldlM add b = .error e) (p : Nat) : e ≠ .noMatch p := by
  induction ls generalizing b with
  | nil => exact absurd h (by simp [pure, Except.pure])
  | cons l ls ih =>
    rw [List.foldlM_cons] at h
    rcases error_of_bind h with hadd | ⟨b₁, -, hfold⟩
    · exact ne_noMatch_of_add hadd p
    · exact ih hfold

end TokenBuffer

/-- The lexemes of a text are collected if and only if their tokens are within the limits. -/
theorem collect_eq_ok_iff {limits : Limits} {input : String} {b : TokenBuffer} :
    (scan input).lexemes.foldlM TokenBuffer.add (TokenBuffer.empty limits) = .ok b ↔
      b = ⟨(scan input).tokens, limits⟩ ∧ limits.Fit (scan input).tokens := by
  constructor
  · intro h
    obtain ⟨rfl, hcount, hsize⟩ := TokenBuffer.of_foldlM_add h (Nat.zero_le _)
    exact ⟨rfl, hcount, hsize⟩
  · rintro ⟨rfl, hfit⟩
    refine TokenBuffer.foldlM_add_eq_ok ?_ hfit.size
    rw [TokenBuffer.empty, List.length_nil, Nat.zero_add]
    exact hfit.count

/-- When a text is split into tokens: its scan reaches the end, and the tokens are within the
limits. -/
theorem tokenize_eq_ok_iff {limits : Limits} {input : String} {b : TokenBuffer} :
    tokenize limits input = .ok b ↔ (scan input).stuckAt = none ∧
      limits.Fit (scan input).tokens ∧ b = ⟨(scan input).tokens, limits⟩ := by
  unfold tokenize
  constructor
  · intro h
    obtain ⟨b₁, hfold, hend⟩ := ok_of_bind h
    obtain ⟨rfl, hfit⟩ := collect_eq_ok_iff.mp hfold
    cases hstuck : (scan input).stuckAt with
    | none =>
      rw [hstuck] at hend
      exact ⟨rfl, hfit, (Except.ok.inj hend).symm⟩
    | some p =>
      rw [hstuck] at hend
      exact absurd hend (by simp)
  · rintro ⟨hstuck, hfit, rfl⟩
    simp only [collect_eq_ok_iff.mpr ⟨rfl, hfit⟩, hstuck]
    rfl

/-- When no rule is found to match: the scan stops there, and the tokens in front are within the
limits. -/
theorem tokenize_eq_noMatch_iff {limits : Limits} {input : String} {p : Nat} :
    tokenize limits input = .error (.noMatch p) ↔
      (scan input).stuckAt = some p ∧ limits.Fit (scan input).tokens := by
  unfold tokenize
  constructor
  · intro h
    rcases error_of_bind h with hfold | ⟨b₁, hfold, hend⟩
    · exact absurd rfl (TokenBuffer.ne_noMatch_of_foldlM_add hfold p)
    · obtain ⟨rfl, hfit⟩ := collect_eq_ok_iff.mp hfold
      cases hstuck : (scan input).stuckAt with
      | none =>
        rw [hstuck] at hend
        exact absurd hend (by simp)
      | some q =>
        rw [hstuck] at hend
        obtain rfl := LexError.noMatch.inj (Except.error.inj hend)
        exact ⟨rfl, hfit⟩
  · rintro ⟨hstuck, hfit⟩
    simp only [collect_eq_ok_iff.mpr ⟨rfl, hfit⟩, hstuck]
    rfl

/-- The limits are not reached in a text: its tokens up to where no rule matches are within them. -/
def Limits.Hold (limits : Limits) (input : String) : Prop :=
  ∀ ts rest, Munches ts input.toList rest → Rule.Unmatched rest → limits.Fit ts

/-- Tokens take up bytes of the text. -/
theorem Munches.fit_bytes {ts : List Token} {cs rest : List Char} (h : Munches ts cs rest) :
    ts.length ≤ (String.ofList cs).utf8ByteSize ∧
      ∀ t ∈ ts, t.text.utf8ByteSize ≤ (String.ofList cs).utf8ByteSize := by
  induction h with
  | nil => exact ⟨Nat.zero_le _, fun t ht => absurd ht List.not_mem_nil⟩
  | @space ts cs rest _ ih =>
    obtain ⟨hcount, hsize⟩ := ih
    rw [String.ofList_cons, String.utf8ByteSize_append]
    exact ⟨Nat.le_add_left_of_le hcount, fun t ht => Nat.le_add_left_of_le (hsize t ht)⟩
  | @token r k u cs rest ts _ hu _ ih =>
    obtain ⟨hcount, hsize⟩ := ih
    have hpos : 0 < (String.ofList u).utf8ByteSize := by
      obtain ⟨c, us, rfl, -⟩ := Rule.exists_cons_of_mem hu.mem
      rw [String.ofList_cons, String.utf8ByteSize_append, String.utf8ByteSize_singleton]
      exact Nat.lt_add_right _ c.utf8Size_pos
    rw [String.ofList_append, String.utf8ByteSize_append]
    refine ⟨by rw [List.length_cons]; omega, fun t ht => ?_⟩
    rcases List.mem_cons.mp ht with rfl | ht
    · exact Nat.le_add_right _ _
    · exact Nat.le_add_left_of_le (hsize t ht)

/-- A text that is not longer than the limits does not reach them. -/
theorem Limits.hold_of_size {limits : Limits} {input : String}
    (hcount : input.utf8ByteSize ≤ limits.maxTokens)
    (hsize : input.utf8ByteSize ≤ limits.maxTokenLen) : limits.Hold input := by
  intro ts rest h _
  have hbytes := h.fit_bytes
  rw [String.ofList_toList] at hbytes
  exact ⟨hbytes.1.trans hcount, fun t ht => (hbytes.2 t ht).trans hsize⟩

/-! ## The tokens of a text -/

/-- **The tokens of a text.** If a text is split into tokens, it is their texts in order with spaces
around them, each text belongs to the language of its kind, and each is the longest text of any rule
at its place. If no rule is found to match at a place, this is the end of a part of the text that
has the tokens found so far by itself, and no rule matches there. There is no other failure while
the limits are not reached. -/
theorem tokenize_longest_match (limits : Limits) (input : String) :
    (∀ b, tokenize limits input = .ok b →
      Spaced b.tokens input.toList ∧ (∀ t ∈ b.tokens, t.text.toList ∈ t.kind.language) ∧
        Munches b.tokens input.toList []) ∧
    (∀ p, tokenize limits input = .error (.noMatch p) →
      ∃ before after ts, input = before ++ after ∧ p = before.utf8ByteSize ∧
        Munches ts input.toList after.toList ∧ tokenize limits before = .ok ⟨ts, limits⟩ ∧
        after ≠ "" ∧ Rule.Unmatched after.toList) ∧
    (limits.Hold input → ∀ e, tokenize limits input = .error e → ∃ p, e = .noMatch p) := by
  obtain ⟨before, after, hinput, hafter, hts, hbefore, hstuck⟩ := exists_scan input
  refine ⟨fun b hb => ?_, fun p hp => ?_, fun hhold e he => ?_⟩
  · obtain ⟨hend, -, rfl⟩ := tokenize_eq_ok_iff.mp hb
    have hnil : after.toList = [] := by
      rw [hstuck] at hend
      by_contra hne
      rw [if_neg (mt String.toList_eq_nil_iff.mpr hne)] at hend
      exact absurd hend (by simp)
    rw [hnil] at hts
    exact ⟨hts.spaced rfl, hts.mem_language, hts⟩
  · obtain ⟨hend, hfit⟩ := tokenize_eq_noMatch_iff.mp hp
    rw [hstuck] at hend
    split at hend
    · exact absurd hend (by simp)
    · rename_i hne
      obtain ⟨htok, hnone⟩ := scan_of_munches hbefore
      refine ⟨before, after, _, hinput, (Option.some.inj hend).symm, hts, ?_, hne, hafter⟩
      exact tokenize_eq_ok_iff.mpr ⟨hnone, by rwa [htok], by rw [htok]⟩
  · have hfit := hhold _ _ hts hafter
    cases hend : (scan input).stuckAt with
    | none => exact absurd (he.symm.trans (tokenize_eq_ok_iff.mpr ⟨hend, hfit, rfl⟩)) (by simp)
    | some p =>
      exact ⟨p, Except.error.inj (he.symm.trans (tokenize_eq_noMatch_iff.mpr ⟨hend, hfit⟩))⟩

/-- There is no register `$s12`: the longest name is taken, and then the number. -/
theorem tokenize_longest_match_unmatched :
    tokenize {} "$s12 " = .ok ⟨[⟨.register, "$s1"⟩, ⟨.number, "2"⟩], {}⟩ ∧
      Munches [⟨.register, "$s1"⟩, ⟨.number, "2"⟩] "$s12 ".toList [] ∧
      Limits.Hold {} "$s12 #" ∧
      ∃ p before after ts, tokenize {} "$s12 #" = .error (.noMatch p) ∧
        "$s12 #" = before ++ after ∧ p = before.utf8ByteSize ∧
        Munches ts "$s12 #".toList after.toList ∧ tokenize {} before = .ok ⟨ts, {}⟩ ∧
        after ≠ "" ∧ Rule.Unmatched after.toList := by
  have hok : tokenize {} "$s12 " = .ok ⟨[⟨.register, "$s1"⟩, ⟨.number, "2"⟩], {}⟩ := by
    decide +kernel
  have herror : tokenize {} "$s12 #" = .error (.noMatch 5) := by decide +kernel
  have hhold : Limits.Hold {} "$s12 #" := Limits.hold_of_size (by decide) (by decide)
  obtain ⟨p, hp⟩ := (tokenize_longest_match {} "$s12 #").2.2 hhold _ herror
  rw [hp] at herror
  obtain ⟨before, after, ts, hbefore⟩ := (tokenize_longest_match {} "$s12 #").2.1 p herror
  exact ⟨hok, ((tokenize_longest_match {} "$s12 ").1 _ hok).2.2, hhold, p, before, after, ts,
    herror, hbefore⟩

end MachineMonitor.Expr

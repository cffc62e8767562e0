import MachineMonitor.Proofs.Expr.Alternation

/-!
# Laying out tokens in a text

A text holds the tokens of a list in order, with any number of spaces around them. Where tokens
alternate between operands and operators no space is needed to keep them apart.

Results:
* `withoutSpaces_scanFrom_space`: a space in front of a text only shifts its scan.
* `tokens_scanFrom`: scanning a text gives the tokens laid out in it.
* `tokenize_eq_ok`: tokens within the limits are collected as they are scanned.
-/

namespace MachineMonitor.Expr

/-- Tokens in a text, with any number of spaces before, between and after them. -/
inductive Spaced : List Token → List Char → Prop
  | nil : Spaced [] []
  | space {ts : List Token} {cs : List Char} (h : Spaced ts cs) : Spaced ts (' ' :: cs)
  | token {t : Token} {ts : List Token} {cs : List Char} (h : Spaced ts cs) :
      Spaced (t :: ts) (t.text.toList ++ cs)

/-- A text of spaces. -/
def spaces (n : Nat) : String := String.ofList (List.replicate n ' ')

theorem Spaced.replicate {ts : List Token} {cs : List Char} (h : Spaced ts cs) (n : Nat) :
    Spaced ts (List.replicate n ' ' ++ cs) := by
  induction n with
  | zero => exact h
  | succ n ih => exact .space ih

/-- Two layouts, one after the other. -/
theorem Spaced.append {ts us : List Token} {cs ds : List Char} (h : Spaced ts cs)
    (h' : Spaced us ds) : Spaced (ts ++ us) (cs ++ ds) := by
  induction h with
  | nil => exact h'
  | space _ ih => exact .space ih
  | token _ ih =>
    rw [List.cons_append, List.append_assoc]
    exact .token ih

/-! ## Scanning -/

/-- The token that a lexeme makes, if it makes one. -/
def Lexeme.token? (l : Lexeme) : Option Token := l.rule.kind?.map (⟨·, l.text⟩)

/-- The tokens of a scan. -/
def Scan.tokens (s : Scan) : List Token := s.lexemes.filterMap Lexeme.token?

theorem scanFrom_nil (p : Nat) : scanFrom p [] = ⟨[], none⟩ := by
  rw [scanFrom]

/-- A scan begins with what the first rule matches. -/
theorem scanFrom_append {p n : Nat} {r : Rule} {cs rest : List Char} (hlen : cs.length = n + 1)
    (h : Rule.first? (cs ++ rest) = some (r, n)) :
    (scanFrom p (cs ++ rest)).lexemes = ⟨r, p, String.ofList cs⟩ ::
        (scanFrom (p + (String.ofList cs).utf8ByteSize) rest).lexemes ∧
      (scanFrom p (cs ++ rest)).stuckAt =
        (scanFrom (p + (String.ofList cs).utf8ByteSize) rest).stuckAt := by
  cases cs with
  | nil => exact absurd hlen (by simp)
  | cons c cs =>
    obtain rfl := Nat.succ.inj hlen
    rw [List.cons_append] at h ⊢
    rw [scanFrom]
    simp [h]

theorem first?_space (cs : List Char) :
    Rule.first? (' ' :: cs) = some (.spaces, (cs.takeWhile (· == ' ')).length) := by
  have h : Rule.spaces.matchLength (' ' :: cs) = (cs.takeWhile (· == ' ')).length + 1 := rfl
  rw [Rule.first?_eq, Rule.all, List.findSome?_cons, Rule.attempt_of_matchLength h]

/-- A scan without its spaces. -/
def Scan.withoutSpaces (s : Scan) : Scan :=
  { s with lexemes := s.lexemes.filter (·.rule != .spaces) }

theorem Lexeme.token?_of_spaces {l : Lexeme} (h : l.rule = .spaces) : l.token? = none := by
  rw [token?, h]
  rfl

theorem Scan.tokens_withoutSpaces (s : Scan) : s.withoutSpaces.tokens = s.tokens := by
  rw [tokens, withoutSpaces, List.filterMap_filter, tokens]
  congr 1
  funext l
  by_cases hl : l.rule = .spaces
  · rw [hl, Lexeme.token?_of_spaces hl]
    rfl
  · rw [if_pos (bne_iff_ne.mpr hl)]

theorem Scan.stuckAt_withoutSpaces (s : Scan) : s.withoutSpaces.stuckAt = s.stuckAt := rfl

/-- The spaces in front of a text only shift its scan. -/
theorem scanFrom_skip (p : Nat) (cs : List Char) :
    (scanFrom p cs).withoutSpaces =
      (scanFrom (p + (String.ofList (cs.takeWhile (· == ' '))).utf8ByteSize)
        (cs.dropWhile (· == ' '))).withoutSpaces := by
  rcases cs with - | ⟨c, cs⟩
  · rfl
  · by_cases hc : c = ' '
    · subst hc
      have hlen : ((' ' :: cs).takeWhile (· == ' ')).length =
          (cs.takeWhile (· == ' ')).length + 1 := rfl
      have hfirst := first?_space cs
      rw [← List.takeWhile_append_dropWhile (p := (· == ' ')) (l := ' ' :: cs)] at hfirst
      obtain ⟨hlex, hstuck⟩ := scanFrom_append (p := p) hlen hfirst
      rw [List.takeWhile_append_dropWhile] at hlex hstuck
      rw [Scan.withoutSpaces, hlex, hstuck]
      rfl
    · have hsp : (c == ' ') = false := beq_eq_false_iff_ne.mpr hc
      rw [List.takeWhile_cons, List.dropWhile_cons, hsp]
      rfl

/-- **A space in front of a text** only shifts its scan. -/
theorem withoutSpaces_scanFrom_space (p : Nat) (cs : List Char) :
    (scanFrom p (' ' :: cs)).withoutSpaces = (scanFrom (p + 1) cs).withoutSpaces := by
  have hsize : (String.ofList ((' ' :: cs).takeWhile (· == ' '))).utf8ByteSize =
      1 + (String.ofList (cs.takeWhile (· == ' '))).utf8ByteSize := by
    rw [List.takeWhile_cons, if_pos (by rfl), String.ofList_cons, String.utf8ByteSize_append]
    rfl
  have hdrop : (' ' :: cs).dropWhile (· == ' ') = cs.dropWhile (· == ' ') := rfl
  rw [scanFrom_skip p (' ' :: cs), scanFrom_skip (p + 1) cs, hsize, hdrop, ← Nat.add_assoc]

theorem scanFrom_space (p : Nat) (cs : List Char) :
    (scanFrom p (' ' :: cs)).tokens = (scanFrom (p + 1) cs).tokens ∧
      (scanFrom p (' ' :: cs)).stuckAt = (scanFrom (p + 1) cs).stuckAt := by
  rw [← Scan.tokens_withoutSpaces, ← Scan.stuckAt_withoutSpaces, withoutSpaces_scanFrom_space,
    Scan.tokens_withoutSpaces, Scan.stuckAt_withoutSpaces]
  exact ⟨rfl, rfl⟩

/-! ## Tokens of a layout -/

theorem not_isAlphanum_of_sign {k : TokenKind} {c : Char} {cs : List Char}
    (h : k.sign? = some (c :: cs)) : c.isAlphanum = false := by
  cases k <;> first
    | (obtain ⟨rfl, -⟩ := List.cons.inj (Option.some.inj h); rfl)
    | exact absurd h (by simp [TokenKind.sign?])

/-- Where an operand has just ended, a text does not go on with a letter or digit. -/
theorem Spaced.boundary {ts : List Token} {cs : List Char} (h : Spaced ts cs)
    (hspelled : ∀ t ∈ ts, Spelled t.kind t.text.toList) (halt : Alternates true ts) :
    Boundary cs := by
  intro c hc
  cases h with
  | nil => exact absurd hc (by simp)
  | space h =>
    obtain rfl := Option.some.inj hc
    rfl
  | @token t ts cs h =>
    have hstart : t.kind.startsOperand = false := halt.1
    have hs := hspelled t List.mem_cons_self
    obtain ⟨x, xs, hx⟩ := List.exists_cons_of_ne_nil hs.ne_nil
    rw [hx] at hc hs
    obtain rfl := Option.some.inj hc
    generalize t.kind = k at hs hstart
    cases hs with
    | sign h => exact not_isAlphanum_of_sign h
    | _ => exact absurd hstart (by simp [TokenKind.startsOperand])

/-- **Scanning a text gives the tokens laid out in it**, if they alternate. -/
theorem tokens_scanFrom {after : Bool} {ts : List Token} {cs : List Char} (h : Spaced ts cs)
    (hspelled : ∀ t ∈ ts, Spelled t.kind t.text.toList) (halt : Alternates after ts) (p : Nat) :
    (scanFrom p cs).tokens = ts.map Token.lexical ∧ (scanFrom p cs).stuckAt = none := by
  induction h generalizing after p with
  | nil =>
    rw [scanFrom_nil]
    exact ⟨rfl, rfl⟩
  | space _ ih =>
    obtain ⟨htok, hstuck⟩ := scanFrom_space p _
    rw [htok, hstuck]
    exact ih hspelled halt (p + 1)
  | @token t ts cs h ih =>
    have hts : ∀ u ∈ ts, Spelled u.kind u.text.toList := fun u hu =>
      hspelled u (List.mem_cons_of_mem t hu)
    have hnext : t.kind.isOperand = true → Boundary cs := by
      intro hop
      have halt' := halt.2
      rw [endsOperand_of_isOperand hop] at halt'
      exact h.boundary hts halt'
    obtain ⟨n, hlen, hfirst⟩ := Rule.first?_of_spelled (hspelled t List.mem_cons_self) hnext
    obtain ⟨hlex, hstuck⟩ := scanFrom_append (p := p) hlen hfirst
    rw [String.ofList_toList] at hlex hstuck
    obtain ⟨htok, hnone⟩ := ih hts halt.2 (p + t.text.utf8ByteSize)
    have htoken : Lexeme.token? ⟨t.kind.rule, p, t.text⟩ = some t.lexical := by
      rw [Lexeme.token?, kind?_rule]
      rfl
    rw [Scan.tokens, hlex, hstuck, List.filterMap_cons_some htoken]
    exact ⟨congrArg (t.lexical :: ·) htok, hnone⟩

/-! ## Collecting tokens -/

theorem TokenBuffer.add_eq_ok {b : TokenBuffer} {l : Lexeme}
    (hcount : b.tokens.length + l.token?.toList.length ≤ b.limits.maxTokens)
    (hlen : ∀ t ∈ l.token?, t.text.utf8ByteSize ≤ b.limits.maxTokenLen) :
    b.add l = .ok { b with tokens := b.tokens ++ l.token?.toList } := by
  unfold TokenBuffer.add
  rw [Lexeme.token?] at hcount hlen ⊢
  cases hk : l.rule.kind? with
  | none => simp
  | some k =>
    rw [hk] at hcount hlen
    have hl := hlen ⟨k, l.text⟩ rfl
    simp only [Option.map_some, Option.toList_some, List.length_singleton] at hcount
    simp only [TokenBuffer.push]
    rw [if_neg (Nat.not_lt.mpr hl), if_neg (by omega)]
    rfl

theorem filterMap_token?_cons (l : Lexeme) (ls : List Lexeme) :
    (l :: ls).filterMap Lexeme.token? = l.token?.toList ++ ls.filterMap Lexeme.token? := by
  rw [List.filterMap_cons]
  cases l.token? <;> rfl

theorem TokenBuffer.foldlM_add_eq_ok {b : TokenBuffer} {ls : List Lexeme}
    (hcount : b.tokens.length + (ls.filterMap Lexeme.token?).length ≤ b.limits.maxTokens)
    (hlen : ∀ t ∈ ls.filterMap Lexeme.token?, t.text.utf8ByteSize ≤ b.limits.maxTokenLen) :
    ls.foldlM TokenBuffer.add b =
      .ok { b with tokens := b.tokens ++ ls.filterMap Lexeme.token? } := by
  induction ls generalizing b with
  | nil =>
    rw [List.filterMap_nil, List.append_nil]
    rfl
  | cons l ls ih =>
    rw [filterMap_token?_cons] at hcount hlen ⊢
    rw [List.length_append] at hcount
    have hadd := add_eq_ok (b := b) (l := l) (by omega) fun t ht =>
      hlen t (List.mem_append_left _ (Option.mem_toList.mpr ht))
    rw [List.foldlM_cons, hadd]
    show ls.foldlM add { b with tokens := b.tokens ++ l.token?.toList } = _
    rw [ih, List.append_assoc]
    · simp only [List.length_append]
      omega
    · exact fun t ht => hlen t (List.mem_append_right _ ht)

/-- **Tokens within the limits are collected** as they are scanned. -/
theorem tokenize_eq_ok {limits : Limits} {input : String} {ts : List Token}
    (htok : (scan input).tokens = ts) (hstuck : (scan input).stuckAt = none)
    (hcount : ts.length ≤ limits.maxTokens)
    (hlen : ∀ t ∈ ts, t.text.utf8ByteSize ≤ limits.maxTokenLen) :
    tokenize limits input = .ok ⟨ts, limits⟩ := by
  subst htok
  have hfold : (scan input).lexemes.foldlM TokenBuffer.add (TokenBuffer.empty limits) =
      .ok ⟨(scan input).tokens, limits⟩ := by
    refine TokenBuffer.foldlM_add_eq_ok ?_ hlen
    rw [TokenBuffer.empty, List.length_nil, Nat.zero_add]
    exact hcount
  simp only [tokenize, hfold, hstuck]
  rfl

end MachineMonitor.Expr

import MachineMonitor.Proofs.Expr.Collecting

/-!
# Reading a text in two parts

A text may be read in two parts, the second from where the first ends, at every place where one
token has ended and the next has not begun. A space makes such a place wherever it stands, since no
rule matches across it.

Results:
* `TokenBuffer.read_append_space`: a text is read up to a space, and then from behind it.
* `TokenBuffer.read_of_munches`: a text is read up to a place behind some of its tokens, and then
  from there.
* `exists_isBreak`: there is such a place between any two tokens of a text that follow each other.
* `tokenize_spaces`: spaces that are put in at such a place only move what stands behind them.
-/

namespace MachineMonitor.Expr

/-! ## Spaces end what a rule matches -/

namespace Rule

/-- No text of a rule holds a space, those of the rule for spaces apart. -/
theorem space_not_mem {r : Rule} (hr : r ≠ spaces) {u : List Char} (hu : u ∈ r.language) :
    ' ' ∉ u := by
  intro hmem
  cases r with
  | spaces => exact hr rfl
  | register =>
    obtain ⟨name, hname, rfl⟩ := mem_register.mp hu
    have hnames : ∀ name ∈ registerNames, ' ' ∉ '$' :: name := by decide
    exact hnames name hname hmem
  | hexNumber =>
    obtain ⟨x, ds, rfl, hx, -, hds⟩ := mem_hexNumber.mp hu
    rcases List.mem_cons.mp hmem with h | hmem
    · exact absurd h (by decide)
    · rcases List.mem_cons.mp hmem with rfl | hmem
      · exact absurd hx (by decide)
      · exact absurd (hds ' ' hmem) (by decide)
  | number => exact absurd ((mem_number.mp hu).2 ' ' hmem) (by decide)
  | _ =>
    rw [(mem_language_of_literal rfl).mp hu] at hmem
    exact absurd hmem (by decide)

/-- What a rule matches does not depend on what stands behind a space. -/
theorem IsLongestIn.append_space {L : Language Char} (hL : ∀ u ∈ L, ' ' ∉ u) {cs : List Char}
    {n : Nat} (h : IsLongestIn L cs n) (ds : List Char) : IsLongestIn L (cs ++ ' ' :: ds) n where
  le_length := by
    rw [List.length_append]
    exact Nat.le_add_right_of_le h.le_length
  mem hn := by
    rw [List.take_append_of_le_length h.le_length]
    exact h.mem hn
  le u hu hpre := by
    refine h.le u hu ?_
    rcases List.prefix_or_prefix_of_prefix hpre (List.prefix_append cs (' ' :: ds)) with
      hle | ⟨vs, rfl⟩
    · exact hle
    · cases vs with
      | nil =>
        rw [List.append_nil]
      | cons c vs =>
        obtain ⟨rfl, -⟩ := List.cons_prefix_cons.mp ((List.prefix_append_right_inj cs).mp hpre)
        exact absurd (List.mem_append_right cs List.mem_cons_self) (hL _ hu)

/-- **In front of a space** the first rule that matches is found without what stands behind it. -/
theorem first?_append_space {c : Char} (hc : c ≠ ' ') (cs ds : List Char) :
    first? (c :: cs ++ ' ' :: ds) = first? (c :: cs) := by
  have hattempt : ∀ r, attempt (c :: cs ++ ' ' :: ds) r = attempt (c :: cs) r := by
    intro r
    have hlength : r.matchLength (c :: cs ++ ' ' :: ds) = r.matchLength (c :: cs) := by
      by_cases hr : r = spaces
      · have hsp : (c == ' ') = false := beq_eq_false_iff_ne.mpr hc
        subst hr
        rw [List.cons_append, matchLength, runLength, runLength, List.takeWhile_cons,
          List.takeWhile_cons, hsp]
        rfl
      · exact (longest_matchLength r _).unique
          ((longest_matchLength r _).append_space (fun u hu => space_not_mem hr hu) ds)
    rw [attempt, attempt, hlength]
  rw [first?_eq, first?_eq, funext hattempt]

end Rule

/-! ## Reading two parts -/

namespace TokenBuffer

/-- **A text with a space in it** is read up to the space, and then from behind it. -/
theorem read_append_space (b : TokenBuffer) (p : Nat) (cs ds : List Char) :
    b.read p (cs ++ ' ' :: ds) = (b.read p cs >>= fun b' =>
      b'.read (p + (String.ofList cs).utf8ByteSize + 1) ds) := by
  induction hlen : cs.length using Nat.strongRecOn generalizing cs b p with
  | ind m ih =>
    rcases cs with - | ⟨c, cs⟩
    · rw [List.nil_append, read_space, read_nil]
      rfl
    by_cases hc : c = ' '
    · subst hc
      rw [List.cons_append, read_space, read_space, ih cs.length (by simp [← hlen]) _ _ _ rfl,
        String.ofList_cons, String.utf8ByteSize_append]
      refine bind_congr fun b' => ?_
      rw [← Nat.add_assoc]
      rfl
    · -- the first rule is the same in both, and the space stands in what it leaves
      have hfirst := Rule.first?_append_space hc cs ds
      cases hfound : Rule.first? (c :: cs) with
      | none =>
        rw [read_of_unmatched (List.cons_ne_nil c cs) hfound,
          read_of_unmatched (List.append_ne_nil_of_left_ne_nil (List.cons_ne_nil c cs) _)
            (hfirst.trans hfound)]
        rfl
      | some found =>
        obtain ⟨r, n⟩ := found
        obtain ⟨hle, -⟩ := Rule.isLongest_of_first? hfound
        obtain ⟨us, vs, hsplit, hus⟩ : ∃ us vs, c :: cs = us ++ vs ∧ us.length = n + 1 :=
          ⟨_, _, (List.take_append_drop (n + 1) (c :: cs)).symm, List.length_take_of_le hle⟩
        have hvs : vs.length < m := by
          rw [← hlen, hsplit, List.length_append]
          omega
        rw [hfound, hsplit, List.append_assoc] at hfirst
        rw [hsplit] at hfound
        rw [hsplit, List.append_assoc, read_append hus hfirst, read_append hus hfound, bind_assoc]
        refine bind_congr fun b' => ?_
        rw [ih vs.length hvs _ _ _ rfl, String.ofList_append, String.utf8ByteSize_append,
          ← Nat.add_assoc]

/-- **A text is read up to behind some of its tokens**, and then from there. -/
theorem read_of_munches {ts : List Token} {before after : List Char}
    (h : Munches ts (before ++ after) after) (b : TokenBuffer) (p : Nat) :
    b.read p (before ++ after) = (b.read p before >>= fun b' =>
      b'.read (p + (String.ofList before).utf8ByteSize) after) := by
  generalize hcs : before ++ after = cs at h
  induction h generalizing before b p with
  | nil rest =>
    obtain rfl := List.append_left_eq_self.mp hcs
    rw [read_nil]
    rfl
  | @space ts cs rest h ih =>
    obtain ⟨us, rfl, -⟩ := h.exists_before
    obtain rfl : before = ' ' :: us := List.append_cancel_right hcs
    rw [read_space, read_space, ih b (p + 1) rfl, String.ofList_cons, String.utf8ByteSize_append]
    refine bind_congr fun b' => ?_
    rw [← Nat.add_assoc]
    rfl
  | @token r k u cs rest ts hk hu h ih =>
    obtain ⟨us, rfl, -⟩ := h.exists_before
    rw [← List.append_assoc] at hcs hu
    obtain rfl : before = u ++ us := List.append_cancel_right hcs
    -- the same rule matches the same text in both
    obtain ⟨n, hlen, hfirst⟩ := Rule.first?_of_isLongest hu
    obtain ⟨m, hlen', hfirst'⟩ := Rule.first?_of_isLongest hu.of_append
    rw [List.append_assoc] at hfirst
    rw [read_append hlen hfirst, read_append hlen' hfirst', bind_assoc]
    refine bind_congr fun b' => ?_
    rw [ih b' _ rfl, String.ofList_append, String.utf8ByteSize_append, Nat.add_assoc]

theorem read_replicate (b : TokenBuffer) (p n : Nat) (cs : List Char) :
    b.read p (List.replicate n ' ' ++ cs) = b.read (p + n) cs := by
  induction n generalizing p with
  | zero => rfl
  | succ n ih =>
    rw [List.replicate_succ, List.cons_append, read_space, ih, Nat.add_assoc, Nat.add_comm 1]

/-- Spaces behind some of the tokens of a text move the rest of it. -/
theorem read_replicate_of_munches {ts : List Token} {before after : List Char}
    (h : Munches ts (before ++ after) after) (b : TokenBuffer) (p n : Nat) :
    b.read p (before ++ (List.replicate n ' ' ++ after)) = (b.read p before >>= fun b' =>
      b'.read (p + (String.ofList before).utf8ByteSize + n) after) := by
  cases n with
  | zero => exact read_of_munches h b p
  | succ n =>
    rw [List.replicate_succ, List.cons_append, read_append_space]
    refine bind_congr fun b' => ?_
    rw [read_replicate, Nat.add_assoc _ 1, Nat.add_comm 1]

end TokenBuffer

/-! ## Breaks in a text -/

/-- A place in a text where no token is torn apart: what stands in front of it is read as some
tokens. -/
def IsBreak (before after : String) : Prop :=
  ∃ ts, Munches ts (before ++ after).toList after.toList

theorem isBreak_start (s : String) : IsBreak "" s :=
  ⟨[], String.toList_append ▸ .nil s.toList⟩

/-- A scan that does not get stuck reads the whole text. -/
theorem munches_scan {s : String} (h : (scan s).stuckAt = none) :
    Munches (scan s).tokens s.toList [] := by
  obtain ⟨before, after, -, -, hts, -, hstuck⟩ := exists_scan s
  rw [h] at hstuck
  split_ifs at hstuck with hafter
  rwa [hafter] at hts

theorem isBreak_end {s : String} (h : (scan s).stuckAt = none) : IsBreak s "" := by
  refine ⟨(scan s).tokens, ?_⟩
  rw [String.append_empty]
  exact munches_scan h

/-- The first of some tokens have a break behind them. -/
theorem Munches.exists_mid {ts xs ys : List Token} {cs rest : List Char} (h : Munches ts cs rest)
    (hts : ts = xs ++ ys) : ∃ mid, Munches xs cs mid := by
  induction h generalizing xs with
  | nil rest =>
    obtain ⟨rfl, -⟩ := List.append_eq_nil_iff.mp hts.symm
    exact ⟨rest, .nil rest⟩
  | space _ ih =>
    obtain ⟨mid, hmid⟩ := ih hts
    exact ⟨mid, .space hmid⟩
  | @token r k u cs rest ts hk hu _ ih =>
    rcases List.cons_eq_append_iff.mp hts with ⟨rfl, -⟩ | ⟨xs', rfl, hts'⟩
    · exact ⟨u ++ cs, .nil _⟩
    · obtain ⟨mid, hmid⟩ := ih hts'
      exact ⟨mid, .token hk hu hmid⟩

/-- **Between the tokens of a text** there are breaks. -/
theorem exists_isBreak {s : String} {xs ys : List Token} (h : (scan s).tokens = xs ++ ys) :
    ∃ before after, s = before ++ after ∧ IsBreak before after ∧ (scan before).tokens = xs ∧
      (scan before).stuckAt = none := by
  obtain ⟨_, _, -, -, hts, -⟩ := exists_scan s
  obtain ⟨mid, hmid⟩ := hts.exists_mid h
  obtain ⟨cs, hcs, hbefore⟩ := hmid.exists_before
  have hs : s = String.ofList cs ++ String.ofList mid := by
    rw [← String.ofList_append, ← hcs, String.ofList_toList]
  rw [← String.toList_ofList (l := cs)] at hbefore
  refine ⟨_, _, hs, ⟨xs, ?_⟩, scan_of_munches hbefore⟩
  rw [← hs, String.toList_ofList]
  exact hmid

/-- **Spaces at a break** change nothing but where errors are that stand behind them. -/
theorem tokenize_spaces (limits : Limits) {before after : String} (h : IsBreak before after)
    (n : Nat) :
    tokenize limits (before ++ spaces n ++ after) =
      match tokenize limits before with
      | .error e => .error e
      | .ok _ => (tokenize limits (before ++ after)).mapError (LexError.shift n) := by
  obtain ⟨ts, h⟩ := h
  rw [String.toList_append] at h
  simp only [tokenize_eq_read, String.toList_append, spaces, String.toList_ofList,
    List.append_assoc, TokenBuffer.read_replicate_of_munches h, TokenBuffer.read_of_munches h]
  cases (TokenBuffer.empty limits).read 0 before.toList with
  | error e => rfl
  | ok b => exact TokenBuffer.read_shift n b _ _

/-- Spaces at a break leave the tokens of a text as they are. -/
theorem tokenize_spaces_of_ok {limits : Limits} {before after : String} {b : TokenBuffer}
    (h : IsBreak before after) (hb : tokenize limits (before ++ after) = .ok b) (n : Nat) :
    tokenize limits (before ++ spaces n ++ after) = .ok b := by
  have hnone := tokenize_spaces limits h 0
  have hzero : before ++ spaces 0 ++ after = before ++ after := by
    rw [spaces, List.replicate_zero, String.ofList_nil, String.append_empty]
  rw [hzero, hb] at hnone
  rw [tokenize_spaces limits h n, hb]
  cases hbefore : tokenize limits before with
  | error e =>
    rw [hbefore] at hnone
    exact absurd hnone (by simp)
  | ok b' => rfl

end MachineMonitor.Expr

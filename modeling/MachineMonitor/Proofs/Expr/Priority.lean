import Mathlib.Data.List.Flatten
import MachineMonitor.Proofs.Expr.Pattern

/-!
# The order in which a rule tries its texts

A regular expression is matched by trying: alternatives from left to right, and more repetitions
before fewer. The first text that fits wins, even where another one is longer. Here the texts with
which an expression fits an input are listed in the order in which they are tried. What a lexical
rule matches is the first of them, and it is the longest only because each expression is written so
that longer texts come first.

Results:
* `Pattern.mem_tried_iff`: the texts that are tried are the texts that match.
* `Rule.greedy_regex`: the expression of a rule tries longer texts first.
* `Rule.first?_regex`: a rule matches the first text that its expression tries.
* `Rule.matched?_eq_some_iff`: this is the longest text of its language.
-/

namespace MachineMonitor.Expr

namespace Pattern

/-! ## Texts that match -/

/-- One or more times the same is the same once, or once and then one or more times again. -/
theorem mem_many_iff {p : Pattern} {cs : List Char} : cs ∈ (many p).language ↔
    cs ∈ p.language ∨ ∃ u ∈ p.language, ∃ v ∈ (many p).language, u ++ v = cs := by
  have hunfold : (many p).language = p.language + p.language * (many p).language := by
    rw [language]
    nth_rewrite 1 [← Language.one_add_self_mul_kstar_eq_kstar]
    rw [mul_add, mul_one]
  conv_lhs => rw [hunfold]
  rw [Language.mem_add, Language.mem_mul]

/-- No expression matches the empty text. -/
theorem ne_nil_of_mem {p : Pattern} {cs : List Char} (h : cs ∈ p.language) : cs ≠ [] := by
  induction p generalizing cs with
  | char c =>
    rw [mem_char.mp h]
    exact List.cons_ne_nil c []
  | oneOf ranges =>
    obtain ⟨c, rfl, -⟩ := mem_oneOf.mp h
    exact List.cons_ne_nil c []
  | seq p q ihp _ =>
    obtain ⟨u, hu, v, -, rfl⟩ := mem_seq.mp h
    exact List.append_ne_nil_of_left_ne_nil (ihp hu) v
  | alt p q ihp ihq =>
    rcases mem_alt.mp h with h | h
    · exact ihp h
    · exact ihq h
  | group p ih => exact ih h
  | many p ih =>
    obtain ⟨u, hu, v, -, rfl⟩ := Language.mem_mul.mp h
    exact List.append_ne_nil_of_left_ne_nil (ih hu) v

/-! ## Texts that are tried -/

/-- The same one or more times, `n` times at most, in the order in which this is tried. -/
def repeats (tried : List Char → List (List Char)) : Nat → List Char → List (List Char)
  | 0, _ => []
  | n + 1, cs => (tried cs).flatMap fun u =>
      (repeats tried n (cs.drop u.length)).map (u ++ ·) ++ [u]

/-- The texts with which an expression fits the beginning of an input, in the order in which they
are tried. -/
def tried : Pattern → List Char → List (List Char)
  | char c, cs => if [c].isPrefixOf cs then [[c]] else []
  | oneOf ranges, cs => ((cs.take 1).filter (inClass ranges)).map ([·])
  | seq p q, cs => (p.tried cs).flatMap fun u => (q.tried (cs.drop u.length)).map (u ++ ·)
  | alt p q, cs => p.tried cs ++ q.tried cs
  | group p, cs => p.tried cs
  | many p, cs => repeats p.tried cs.length cs

theorem repeats_succ (tried : List Char → List (List Char)) (n : Nat) (cs : List Char) :
    repeats tried (n + 1) cs = (tried cs).flatMap fun u =>
      (repeats tried n (cs.drop u.length)).map (u ++ ·) ++ [u] := rfl

theorem tried_char (c : Char) (cs : List Char) :
    (char c).tried cs = if [c].isPrefixOf cs then [[c]] else [] := rfl

theorem tried_oneOf (ranges : List (Char × Char)) (cs : List Char) :
    (oneOf ranges).tried cs = ((cs.take 1).filter (inClass ranges)).map ([·]) := rfl

theorem tried_seq (p q : Pattern) (cs : List Char) :
    (seq p q).tried cs =
      (p.tried cs).flatMap fun u => (q.tried (cs.drop u.length)).map (u ++ ·) := rfl

theorem tried_alt (p q : Pattern) (cs : List Char) :
    (alt p q).tried cs = p.tried cs ++ q.tried cs := rfl

theorem tried_many (p : Pattern) (cs : List Char) :
    (many p).tried cs = repeats p.tried cs.length cs := rfl

/-- The text that an expression matches at the beginning of an input. -/
def first? (p : Pattern) (cs : List Char) : Option (List Char) := (p.tried cs).head?

theorem append_prefix_iff {u v cs : List Char} :
    u ++ v <+: cs ↔ u <+: cs ∧ v <+: cs.drop u.length := by
  constructor
  · rintro ⟨rest, rfl⟩
    exact ⟨⟨v ++ rest, by simp⟩, ⟨rest, by simp⟩⟩
  · rintro ⟨⟨rest, rfl⟩, h⟩
    rw [List.drop_left] at h
    exact (List.prefix_append_right_inj u).mpr h

theorem mem_repeats_iff {p : Pattern}
    (hp : ∀ {u cs}, u ∈ p.tried cs ↔ u ∈ p.language ∧ u <+: cs) {n : Nat} {u cs : List Char}
    (hn : cs.length ≤ n) :
    u ∈ repeats p.tried n cs ↔ u ∈ (many p).language ∧ u <+: cs := by
  induction n generalizing u cs with
  | zero =>
    obtain rfl := List.length_eq_zero_iff.mp (Nat.le_zero.mp hn)
    refine ⟨fun h => absurd h List.not_mem_nil, fun ⟨hu, hpre⟩ => ?_⟩
    exact absurd (List.prefix_nil.mp hpre) (ne_nil_of_mem hu)
  | succ n ih =>
    -- once the first part is read, less is left
    have hrest : ∀ {v w}, v ∈ p.language →
        (w ∈ repeats p.tried n (cs.drop v.length) ↔
          w ∈ (many p).language ∧ w <+: cs.drop v.length) := by
      intro v w hv
      refine ih ?_
      have hpos := List.length_pos_of_ne_nil (ne_nil_of_mem hv)
      rw [List.length_drop]
      omega
    rw [repeats_succ, List.mem_flatMap, mem_many_iff]
    constructor
    · rintro ⟨v, hv, hu⟩
      obtain ⟨hv, hpre⟩ := hp.mp hv
      rcases List.mem_append.mp hu with hu | hu
      · obtain ⟨w, hw, rfl⟩ := List.mem_map.mp hu
        obtain ⟨hw, hwpre⟩ := (hrest hv).mp hw
        exact ⟨Or.inr ⟨v, hv, w, hw, rfl⟩, append_prefix_iff.mpr ⟨hpre, hwpre⟩⟩
      · obtain rfl := List.mem_singleton.mp hu
        exact ⟨Or.inl hv, hpre⟩
    · rintro ⟨hu | ⟨v, hv, w, hw, rfl⟩, hpre⟩
      · exact ⟨u, hp.mpr ⟨hu, hpre⟩, List.mem_append_right _ (List.mem_singleton_self u)⟩
      · obtain ⟨hvpre, hwpre⟩ := append_prefix_iff.mp hpre
        refine ⟨v, hp.mpr ⟨hv, hvpre⟩, List.mem_append_left _ ?_⟩
        exact List.mem_map.mpr ⟨w, (hrest hv).mpr ⟨hw, hwpre⟩, rfl⟩

/-- **The texts that are tried are the texts that match** and stand at the beginning. -/
theorem mem_tried_iff {p : Pattern} {u cs : List Char} :
    u ∈ p.tried cs ↔ u ∈ p.language ∧ u <+: cs := by
  induction p generalizing u cs with
  | char c =>
    rw [tried_char, mem_char]
    by_cases hpre : [c] <+: cs
    · rw [if_pos (List.isPrefixOf_iff_prefix.mpr hpre), List.mem_singleton]
      exact ⟨fun h => ⟨h, h ▸ hpre⟩, And.left⟩
    · rw [if_neg (mt List.isPrefixOf_iff_prefix.mp hpre)]
      exact ⟨fun h => absurd h List.not_mem_nil, fun ⟨h, hu⟩ => absurd (h ▸ hu) hpre⟩
  | oneOf ranges =>
    rw [tried_oneOf, mem_oneOf, List.mem_map]
    constructor
    · rintro ⟨c, hc, rfl⟩
      obtain ⟨hmem, hclass⟩ := List.mem_filter.mp hc
      refine ⟨⟨c, rfl, hclass⟩, ?_⟩
      cases cs with
      | nil => exact absurd hmem List.not_mem_nil
      | cons d cs =>
        obtain rfl := List.mem_singleton.mp hmem
        exact ⟨cs, rfl⟩
    · rintro ⟨⟨c, rfl, hclass⟩, rest, rfl⟩
      exact ⟨c, List.mem_filter.mpr ⟨List.mem_singleton_self c, hclass⟩, rfl⟩
  | seq p q ihp ihq =>
    rw [tried_seq, mem_seq, List.mem_flatMap]
    constructor
    · rintro ⟨v, hv, hu⟩
      obtain ⟨w, hw, rfl⟩ := List.mem_map.mp hu
      obtain ⟨hv, hvpre⟩ := ihp.mp hv
      obtain ⟨hw, hwpre⟩ := ihq.mp hw
      exact ⟨⟨v, hv, w, hw, rfl⟩, append_prefix_iff.mpr ⟨hvpre, hwpre⟩⟩
    · rintro ⟨⟨v, hv, w, hw, rfl⟩, hpre⟩
      obtain ⟨hvpre, hwpre⟩ := append_prefix_iff.mp hpre
      exact ⟨v, ihp.mpr ⟨hv, hvpre⟩, List.mem_map.mpr ⟨w, ihq.mpr ⟨hw, hwpre⟩, rfl⟩⟩
  | alt p q ihp ihq => rw [tried_alt, List.mem_append, ihp, ihq, mem_alt, or_and_right]
  | group p ih => exact ih
  | many p ih => exact mem_repeats_iff ih (Nat.le_refl _)

/-- **An expression without repetition** is tried in the order in which its texts are listed. -/
theorem tried_sublist_words {p : Pattern} (h : p.isFinite = true) (cs : List Char) :
    (p.tried cs).Sublist p.words := by
  induction p generalizing cs with
  | char c =>
    rw [tried_char, words]
    split
    · exact List.Sublist.refl _
    · exact List.nil_sublist _
  | oneOf ranges =>
    rw [tried_oneOf, words]
    refine List.Sublist.map _ ?_
    cases cs with
    | nil => exact List.nil_sublist _
    | cons c cs =>
      rw [List.take_succ_cons, List.take_zero]
      by_cases hc : inClass ranges c = true
      · rw [List.filter_cons_of_pos hc, List.filter_nil]
        exact List.singleton_sublist.mpr ((mem_classChars h).mpr hc)
      · rw [List.filter_cons_of_neg hc, List.filter_nil]
        exact List.nil_sublist _
  | seq p q ihp ihq =>
    obtain ⟨hp, hq⟩ := Bool.and_eq_true_iff.mp h
    exact ((ihp hp cs).flatMap _).trans
      (List.Sublist.flatMap_right _ fun u _ => (ihq hq _).map (u ++ ·))
  | alt p q ihp ihq =>
    obtain ⟨hp, hq⟩ := Bool.and_eq_true_iff.mp h
    exact (ihp hp cs).append (ihq hq cs)
  | group p ih => exact ih h cs
  | many p => exact absurd h (by simp [isFinite])

/-! ## Longer texts first -/

/-- An expression that tries longer texts before shorter ones, whatever the input. -/
def Greedy (p : Pattern) : Prop :=
  ∀ cs, (p.tried cs).Pairwise fun u v => v.length ≤ u.length

/-- An expression that tries one character at most. -/
def Single (p : Pattern) : Prop :=
  ∀ cs, p.tried cs = [] ∨ ∃ c, p.tried cs = [[c]]

theorem single_char (c : Char) : (char c).Single := by
  intro cs
  rw [tried_char]
  split
  · exact Or.inr ⟨c, rfl⟩
  · exact Or.inl rfl

theorem single_oneOf (ranges : List (Char × Char)) : (oneOf ranges).Single := by
  intro cs
  rw [tried_oneOf]
  cases cs with
  | nil => exact Or.inl rfl
  | cons c cs =>
    rw [List.take_succ_cons, List.take_zero]
    by_cases hc : inClass ranges c = true
    · rw [List.filter_cons_of_pos hc]
      exact Or.inr ⟨c, rfl⟩
    · rw [List.filter_cons_of_neg hc]
      exact Or.inl rfl

/-- Where no text is the beginning of one that is tried after it, longer ones come first. -/
theorem greedy_of_words {p : Pattern} (h : p.isFinite = true)
    (hwords : p.words.Pairwise fun u v => ¬ u <+: v) : p.Greedy := by
  intro cs
  refine List.Pairwise.imp_of_mem ?_ (hwords.sublist (tried_sublist_words h cs))
  intro u v hu hv hnot
  rcases List.prefix_or_prefix_of_prefix (mem_tried_iff.mp hu).2 (mem_tried_iff.mp hv).2 with
    hle | hle
  · exact absurd hle hnot
  · exact hle.length_le

theorem Single.greedy_seq {p q : Pattern} (hp : p.Single) (hq : q.Greedy) : (seq p q).Greedy := by
  intro cs
  rw [tried_seq]
  rcases hp cs with hnone | ⟨c, hone⟩
  · rw [hnone]
    exact List.Pairwise.nil
  · rw [hone, List.flatMap_cons, List.flatMap_nil, List.append_nil, List.pairwise_map]
    exact (hq _).imp (by simp)

theorem Single.greedy_many {p : Pattern} (hp : p.Single) : (many p).Greedy := by
  intro cs
  rw [tried_many]
  generalize cs.length = n
  induction n generalizing cs with
  | zero => exact List.Pairwise.nil
  | succ n ih =>
    rw [repeats_succ]
    rcases hp cs with hnone | ⟨c, hone⟩
    · rw [hnone]
      exact List.Pairwise.nil
    · rw [hone, List.flatMap_cons, List.flatMap_nil, List.append_nil, List.pairwise_append,
        List.pairwise_map]
      refine ⟨(ih _).imp (by simp), List.pairwise_singleton _ _, ?_⟩
      simp

end Pattern

namespace Rule

open Pattern

/-- The longest text of a language has one length. -/
theorem IsLongestIn.unique {L : Language Char} {cs : List Char} {n m : Nat}
    (hn : IsLongestIn L cs n) (hm : IsLongestIn L cs m) : n = m := by
  have hle : ∀ {k l}, IsLongestIn L cs k → IsLongestIn L cs l → k ≤ l := by
    intro k l hk hl
    by_cases hzero : k = 0
    · rw [hzero]
      exact Nat.zero_le l
    · have hlen := hl.le _ (hk.mem hzero) (List.take_prefix k cs)
      rwa [List.length_take_of_le hk.le_length] at hlen
  exact Nat.le_antisymm (hle hn hm) (hle hm hn)

/-- What tries longer texts first matches the longest text. -/
theorem longest_first? {p : Pattern} (hp : p.Greedy) (cs : List Char) :
    IsLongestIn p.language cs ((p.first? cs).elim 0 List.length) := by
  unfold Pattern.first?
  cases htried : p.tried cs with
  | nil =>
    refine longest_zero fun u hu hpre => ?_
    have hmem := mem_tried_iff.mpr ⟨hu, hpre⟩
    rw [htried] at hmem
    exact List.not_mem_nil hmem
  | cons u us =>
    have hgreedy := hp cs
    rw [htried] at hgreedy
    obtain ⟨hu, hpre⟩ := mem_tried_iff.mp (htried ▸ List.mem_cons_self : u ∈ p.tried cs)
    refine ⟨hpre.length_le, fun _ => ?_, fun v hv hvpre => ?_⟩
    · show cs.take u.length ∈ p.language
      rwa [← List.prefix_iff_eq_take.mp hpre]
    · have hmem := mem_tried_iff.mpr ⟨hv, hvpre⟩
      rw [htried] at hmem
      rcases List.mem_cons.mp hmem with rfl | hmem
      · exact Nat.le_refl _
      · exact (List.pairwise_cons.mp hgreedy).1 v hmem

/-- **The expression of a rule** tries longer texts first. -/
theorem greedy_regex (r : Rule) : r.regex.Greedy := by
  cases r with
  | spaces => exact (single_char ' ').greedy_many
  | number => exact (single_oneOf _).greedy_many
  | hexNumber => exact (single_char '0').greedy_seq ((single_oneOf _).greedy_seq
      (single_oneOf _).greedy_many)
  | _ => exact greedy_of_words (by decide) (by decide)

/-- The text that a rule matches at the beginning of an input. -/
def matched? (r : Rule) (cs : List Char) : Option (List Char) :=
  if r.matchLength cs = 0 then none else some (cs.take (r.matchLength cs))

/-- **A rule matches the first text that its expression tries.** -/
theorem first?_regex (r : Rule) (cs : List Char) : r.regex.first? cs = r.matched? cs := by
  have hlength := (longest_first? r.greedy_regex cs).unique (longest_matchLength r cs)
  unfold matched?
  cases hfirst : r.regex.first? cs with
  | none =>
    rw [hfirst] at hlength
    exact (if_pos hlength.symm).symm
  | some u =>
    rw [hfirst] at hlength
    obtain ⟨hu, hpre⟩ := mem_tried_iff.mp (List.mem_of_head? hfirst)
    have hne : r.matchLength cs ≠ 0 := by
      rw [← hlength]
      exact mt List.length_eq_zero_iff.mp (ne_nil_of_mem hu)
    rw [if_neg hne, ← hlength]
    exact congrArg some (List.prefix_iff_eq_take.mp hpre)

/-- A rule matches nothing where no text of its language begins. -/
theorem matched?_eq_none_iff {r : Rule} {cs : List Char} :
    r.matched? cs = none ↔ ∀ u ∈ r.language, ¬ u <+: cs := by
  rw [← first?_regex, Pattern.first?, List.head?_eq_none_iff, List.eq_nil_iff_forall_not_mem]
  simp only [mem_tried_iff, not_and]
  rfl

/-- What a rule matches is the longest text of its language that begins there. -/
theorem matched?_eq_some_iff {r : Rule} {cs u : List Char} :
    r.matched? cs = some u ↔
      u ∈ r.language ∧ u <+: cs ∧ ∀ v ∈ r.language, v <+: cs → v.length ≤ u.length := by
  have hlongest := longest_first? r.greedy_regex cs
  rw [← first?_regex]
  constructor
  · intro h
    obtain ⟨hu, hpre⟩ := mem_tried_iff.mp (List.mem_of_head? h)
    rw [h] at hlongest
    exact ⟨hu, hpre, hlongest.le⟩
  · rintro ⟨hu, hpre, hle⟩
    cases hfirst : r.regex.first? cs with
    | none => exact absurd hpre (matched?_eq_none_iff.mp (first?_regex r cs ▸ hfirst) u hu)
    | some v =>
      obtain ⟨hv, hvpre⟩ := mem_tried_iff.mp (List.mem_of_head? hfirst)
      rw [hfirst] at hlongest
      have hlength : u.length = v.length := Nat.le_antisymm (hlongest.le u hu hpre) (hle v hv hvpre)
      rw [List.prefix_iff_eq_take.mp hpre, List.prefix_iff_eq_take.mp hvpre, hlength]

end Rule

end MachineMonitor.Expr

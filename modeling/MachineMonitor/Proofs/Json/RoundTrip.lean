import MachineMonitor.Json.Parser
import MachineMonitor.Json.Printer
import MachineMonitor.Proofs.Numeral

/-!
# Reading back what is written

Every JSON value is read back from its text: numbers of both kinds, strings whatever characters they
hold, and arrays and objects with their members in order, repeated keys included. Each reader is
shown to find what the writer made in front of any text that may follow it there.

Results:
* `Number.scan?_render`, `scanString?_renderString`: the same for numbers and for strings.
* `Value.parse?_print`: reading the text of a value gives the value.
-/

namespace MachineMonitor.Json

/-! ## Numbers -/

namespace Number

/-- A text that digits do not go on into. -/
def EndsDigits (rest : List Char) : Prop := ∀ c, rest.head? = some c → c.isDigit = false

/-- A text that a number does not go on into. -/
def Ends (rest : List Char) : Prop :=
  EndsDigits rest ∧ ∀ c ∈ ['.', 'e', 'E'], rest.head? ≠ some c

theorem endsDigits_cons {c : Char} {rest : List Char} (h : c.isDigit = false) :
    EndsDigits (c :: rest) := by
  intro d hd
  rwa [← Option.some.inj hd]

theorem scanDigits?_append {ds rest : List Char} (hds : ∀ c ∈ ds, c.isDigit = true)
    (hne : ds ≠ []) (hrest : EndsDigits rest) : scanDigits? (ds ++ rest) = some (ds, rest) := by
  have htake : rest.takeWhile Char.isDigit = [] ∧ rest.dropWhile Char.isDigit = rest := by
    cases rest with
    | nil => exact ⟨rfl, rfl⟩
    | cons c rest => simp [hrest c rfl]
  obtain ⟨d, ds, rfl⟩ := List.exists_cons_of_ne_nil hne
  rw [scanDigits?, List.takeWhile_append_of_pos hds, List.dropWhile_append_of_pos hds, htake.1,
    htake.2, List.append_nil]

theorem isDigit_toDigits {n : Nat} {c : Char} (h : c ∈ Nat.toDigits 10 n) : c.isDigit = true :=
  Nat.isDigit_of_mem_toDigits (by decide) (by decide) h

theorem natural?_toDigits (n : Nat) : Numeral.natural? 10 (Nat.toDigits 10 n) = some n :=
  Numeral.natural?_of_denotes (by decide) (Numeral.denotes_toDigits (by decide) n)

/-- Only zero is written with a zero in front. -/
theorem tail_of_toDigits {n : Nat} {cs : List Char} (h : Nat.toDigits 10 n = '0' :: cs) :
    cs = [] := by
  induction n using Nat.strongRecOn generalizing cs with
  | ind n ih =>
    by_cases hn : n < 10
    · rw [Nat.toDigits_of_lt_base hn] at h
      exact (List.cons.inj h).2.symm
    · rw [Nat.toDigits_of_base_le (by decide) (Nat.le_of_not_lt hn)] at h
      have hne : Nat.toDigits 10 (n / 10) ≠ [] := Nat.toDigits_ne_nil
      obtain ⟨d, ds, hds⟩ := List.exists_cons_of_ne_nil hne
      rw [hds, List.cons_append] at h
      obtain ⟨rfl, -⟩ := List.cons.inj h
      obtain rfl := ih (n / 10) (by omega) hds
      have hzero := natural?_toDigits (n / 10)
      rw [hds, show Numeral.natural? 10 ['0'] = some 0 by decide] at hzero
      have := Option.some.inj hzero
      omega

theorem scanDigits?_toDigits (n : Nat) {rest : List Char} (hrest : EndsDigits rest) :
    scanDigits? (Nat.toDigits 10 n ++ rest) = some (Nat.toDigits 10 n, rest) :=
  scanDigits?_append (fun _ => isDigit_toDigits) Nat.toDigits_ne_nil hrest

theorem scanWhole?_toDigits (n : Nat) {rest : List Char} (hrest : EndsDigits rest) :
    scanWhole? (Nat.toDigits 10 n ++ rest) = some (Nat.toDigits 10 n, rest) := by
  rw [scanWhole?, scanDigits?_toDigits n hrest]
  split
  · rename_i heq
    exact absurd (tail_of_toDigits (Prod.ext_iff.mp (Option.some.inj heq)).1) (by simp)
  · rfl

/-- A number with or without a sign begins with the sign or with a digit. -/
theorem exists_cons_signed (negative : Bool) (n : Nat) (rest : List Char) :
    ∃ c cs, renderSign negative ++ (Nat.toDigits 10 n ++ rest) = c :: cs ∧
      (c.isDigit = true ∨ negative = true ∧ c = '-') := by
  cases negative with
  | true => exact ⟨'-', _, rfl, Or.inr ⟨rfl, rfl⟩⟩
  | false =>
    obtain ⟨d, ds, hds⟩ := List.exists_cons_of_ne_nil (Nat.toDigits_ne_nil (n := n) (b := 10))
    exact ⟨d, ds ++ rest, by rw [hds]; rfl, Or.inl (isDigit_toDigits (n := n) (by simp [hds]))⟩

theorem scanSign_render (negative : Bool) (n : Nat) (rest : List Char) :
    scanSign (renderSign negative ++ (Nat.toDigits 10 n ++ rest)) =
      (negative, Nat.toDigits 10 n ++ rest) := by
  cases negative with
  | true => rfl
  | false =>
    obtain ⟨c, cs, hcs, hc⟩ := exists_cons_signed false n rest
    have hdigit : c.isDigit = true := by simpa using hc
    have hne : c ≠ '-' := by
      rintro rfl
      exact absurd hdigit (by decide)
    rw [renderSign, if_neg Bool.false_ne_true, List.nil_append] at hcs ⊢
    rw [hcs, scanSign]
    simpa using hne

theorem scanPower?_render (exponent : Int) {rest : List Char} (hrest : EndsDigits rest) :
    scanPower? (renderSign (exponent < 0) ++ (Nat.toDigits 10 exponent.natAbs ++ rest)) =
      some (some exponent, rest) := by
  have hsign := scanSign_render (exponent < 0) exponent.natAbs rest
  obtain ⟨c, cs, hcs, hc⟩ := exists_cons_signed (exponent < 0) exponent.natAbs rest
  rw [hcs] at hsign ⊢
  unfold scanPower?
  split
  rename_i heq
  split at heq
  · rename_i hplus
    obtain ⟨rfl, -⟩ := List.cons.inj hplus
    exact absurd hc (by simp)
  · rw [hsign] at heq
    obtain ⟨rfl, rfl⟩ := Prod.mk.inj heq
    have hvalue : (if decide (exponent < 0) = true then -(exponent.natAbs : Int)
        else exponent.natAbs) = exponent := by
      simp only [decide_eq_true_eq]
      split <;> omega
    rw [scanDigits?_toDigits _ hrest]
    simp only [natural?_toDigits, Option.bind_eq_bind, Option.bind_some, Option.pure_def,
      Option.map_some, hvalue]

/-- **Reading a number** gives the number that was written, and what follows it. -/
theorem scan?_render (n : Number) {rest : List Char} (hrest : Ends rest) :
    scan? (n.render ++ rest) = some (n, rest) := by
  cases n with
  | natural n =>
    have hsign := scanSign_render false n rest
    have hfraction : scanFraction? rest = some ([], rest) := by
      unfold scanFraction?
      split
      · exact absurd rfl (hrest.2 '.' (by decide))
      · rfl
    have hexponent : scanExponent? rest = some (none, rest) := by
      unfold scanExponent?
      split
      · exact absurd rfl (hrest.2 'e' (by decide))
      · exact absurd rfl (hrest.2 'E' (by decide))
      · rfl
    rw [renderSign, if_neg Bool.false_ne_true, List.nil_append] at hsign
    rw [scan?, render, hsign]
    simp [scanWhole?_toDigits n hrest.1, hfraction, hexponent, natural?_toDigits]
  | decimal negative mantissa exponent =>
    have hsign := scanSign_render negative mantissa
      ('e' :: (renderSign (exponent < 0) ++ (Nat.toDigits 10 exponent.natAbs ++ rest)))
    have hends : EndsDigits
        ('e' :: (renderSign (exponent < 0) ++ (Nat.toDigits 10 exponent.natAbs ++ rest))) :=
      endsDigits_cons (by decide)
    have hwhole := scanWhole?_toDigits mantissa hends
    have hpower := scanPower?_render exponent hrest.1
    simp only [render, List.append_assoc, List.cons_append]
    rw [scan?, hsign]
    simp [hwhole, scanFraction?, scanExponent?, hpower, natural?_toDigits]

end Number

/-! ## Strings -/

namespace Quoted

theorem unit?_control : ∀ n < firstPlain,
    unit? '0' '0' (Nat.digitChar (n / 16)) (Nat.digitChar (n % 16)) = some n := by
  decide

theorem ofUnit_control {c : Char} (h : c.toNat < firstPlain) : Piece.ofUnit c.toNat = .char c := by
  have hsmall : c.toNat < 0xD800 := Nat.lt_of_lt_of_le h (by decide)
  have hhigh : isHighHalf c.toNat = false := by simp [isHighHalf, Nat.not_le_of_lt hsmall]
  have hlow : isLowHalf c.toNat = false := by
    simp [isLowHalf, Nat.not_le_of_lt (Nat.lt_trans hsmall (by decide : 0xD800 < 0xDC00))]
  rw [Piece.ofUnit, hhigh, hlow, Char.ofNat_toNat]
  rfl

theorem scan?_plain {c : Char} (hquote : c ≠ '"') (hslash : c ≠ '\\')
    (hplain : ¬ c.toNat < firstPlain) (cs : List Char) :
    scan? (c :: cs) = (scan? cs).map fun p => (.char c :: p.1, p.2) := by
  rw [scan?.eq_def]
  split
  · rename_i h
    exact absurd h (List.cons_ne_nil c cs)
  · rename_i h
    exact absurd (List.cons.inj h).1 hquote
  · rename_i h
    exact absurd (List.cons.inj h).1 hslash
  · rename_i h
    exact absurd (List.cons.inj h).1 hslash
  · rename_i h
    obtain ⟨rfl, rfl⟩ := List.cons.inj h
    rw [if_neg hplain]
    cases scan? cs <;> rfl

theorem scan?_short {e c : Char} (h : shortEscape? e = some c) (cs : List Char) :
    scan? ('\\' :: e :: cs) = (scan? cs).map fun p => (.char c :: p.1, p.2) := by
  rw [scan?.eq_def]
  split
  · rename_i heq
    exact absurd heq (List.cons_ne_nil _ _)
  · rename_i heq
    exact absurd (List.cons.inj heq).1 (by decide)
  · rename_i heq
    obtain ⟨rfl, -⟩ := List.cons.inj (List.cons.inj heq).2
    exact absurd h (by simp [shortEscape?])
  · rename_i heq
    obtain ⟨rfl, rfl⟩ := List.cons.inj (List.cons.inj heq).2
    rw [h]
    cases scan? cs <;> rfl
  · rename_i hne heq
    obtain ⟨rfl, rfl⟩ := List.cons.inj heq
    exact absurd rfl (hne e cs rfl)

theorem scan?_escape (c : Char) (cs : List Char) :
    scan? (escape c ++ cs) = (scan? cs).map fun p => (.char c :: p.1, p.2) := by
  unfold escape
  -- the short escapes
  iterate 7
    split
    · subst_vars
      exact scan?_short rfl cs
  split
  case isTrue hcontrol =>
    simp only [List.cons_append, List.nil_append, scan?]
    rw [unit?_control c.toNat hcontrol]
    rw [← ofUnit_control hcontrol]
    cases scan? cs <;> rfl
  case isFalse hplain => exact scan?_plain ‹_› ‹_› hplain cs

/-- **Reading a quoted text** gives its characters, and what follows the closing quote. -/
theorem scan?_flatMap_escape (text rest : List Char) :
    scan? (text.flatMap escape ++ '"' :: rest) = some (text.map .char, rest) := by
  induction text with
  | nil => rw [List.flatMap_nil, List.nil_append, scan?]; rfl
  | cons c cs ih => rw [List.flatMap_cons, List.append_assoc, scan?_escape, ih]; rfl

end Quoted

/-- **Reading a string** gives its text, or that it has none, and what follows it. -/
theorem scanString?_renderString (text : Option String) :
    ∃ cs, renderString text = '"' :: cs ∧ ∀ rest, scanString? (cs ++ rest) = some (text, rest) := by
  cases text with
  | none => exact ⟨_, rfl, fun rest => rfl⟩
  | some s =>
    refine ⟨s.toList.flatMap Quoted.escape ++ ['"'], rfl, fun rest => ?_⟩
    rw [List.append_assoc, List.singleton_append, scanString?, Quoted.scan?_flatMap_escape]
    simp [Quoted.join_map_char]

/-! ## Values -/

theorem skipBlanks_cons {c : Char} (h : isBlank c = false) (cs : List Char) :
    skipBlanks (c :: cs) = c :: cs := by
  rw [skipBlanks, List.dropWhile_cons, h, if_neg Bool.false_ne_true]

/-- **Reading a key** gives its text and what follows the colon. -/
theorem scanKey?_renderString (key : Option String) (rest : List Char) :
    scanKey? (renderString key ++ ':' :: rest) = some (key, rest) := by
  obtain ⟨cs, hcs, hscan⟩ := scanString?_renderString key
  rw [hcs, List.cons_append, scanKey?, skipBlanks_cons rfl]
  simp only [hscan, skipBlanks_cons (c := ':') rfl]

theorem number_head {c : Char} (h : c.isDigit = true ∨ c = '-') :
    isBlank c = false ∧ ∀ d ∈ ['"', '[', ']', '\x7b', 'n', 't', 'f'], c ≠ d := by
  constructor
  · rw [Bool.eq_false_iff]
    intro hblank
    simp only [isBlank, Bool.or_eq_true, beq_iff_eq] at hblank
    rcases hblank with ((rfl | rfl) | rfl) | rfl <;> revert h <;> decide
  · rintro d hd rfl
    have hall : ['"', '[', ']', '\x7b', 'n', 't', 'f'].all (fun d => !d.isDigit && d != '-') := by
      decide
    have hc := List.all_eq_true.mp hall c hd
    rcases h with h | rfl
    · rw [h] at hc
      exact absurd hc (by simp)
    · exact absurd hc (by decide)

theorem exists_cons_number (n : Number) :
    ∃ c cs, n.render = c :: cs ∧ (c.isDigit = true ∨ c = '-') := by
  cases n with
  | natural n =>
    obtain ⟨c, cs, hcs, hc⟩ := Number.exists_cons_signed false n []
    rw [List.append_nil] at hcs
    exact ⟨c, cs, hcs, hc.imp_right And.right⟩
  | decimal negative mantissa exponent =>
    obtain ⟨c, cs, hcs, hc⟩ := Number.exists_cons_signed negative mantissa
      ('e' :: (Number.renderSign (exponent < 0) ++ Nat.toDigits 10 exponent.natAbs))
    rw [← List.append_assoc] at hcs
    exact ⟨c, cs, hcs, hc.imp_right And.right⟩

/-- A value begins with a character that is no blank and does not end an array. -/
theorem exists_cons_render (v : Value) :
    ∃ c cs, render v = c :: cs ∧ isBlank c = false ∧ c ≠ ']' := by
  cases v with
  | null => exact ⟨_, _, rfl, rfl, by decide⟩
  | bool b => cases b <;> exact ⟨_, _, rfl, rfl, by decide⟩
  | number n =>
    obtain ⟨c, cs, hcs, hc⟩ := exists_cons_number n
    obtain ⟨hblank, hne⟩ := number_head hc
    exact ⟨c, cs, by rw [render, hcs], hblank, hne ']' (by decide)⟩
  | string text =>
    obtain ⟨cs, hcs, -⟩ := scanString?_renderString text
    exact ⟨_, cs, by rw [render, hcs], rfl, by decide⟩
  | array vs => cases vs <;> exact ⟨_, _, rfl, rfl, by decide⟩
  | object members =>
    rcases members with - | ⟨⟨key, v⟩, members⟩ <;> exact ⟨_, _, rfl, rfl, by decide⟩

theorem ends_cons {c : Char} (h : c.isDigit = false) (hne : c ∉ ['.', 'e', 'E'])
    (rest : List Char) : Number.Ends (c :: rest) := by
  refine ⟨Number.endsDigits_cons h, fun d hd heq => ?_⟩
  obtain rfl := Option.some.inj heq
  exact hne hd

theorem ends_renderElements (vs : List Value) (rest : List Char) :
    Number.Ends (renderElements vs ++ rest) := by
  cases vs <;> exact ends_cons (by decide) (by decide) _

theorem ends_renderMembers (members : Members) (rest : List Char) :
    Number.Ends (renderMembers members ++ rest) := by
  rcases members with - | ⟨⟨key, v⟩, members⟩ <;> exact ends_cons (by decide) (by decide) _

theorem length_render_pos (v : Value) : 0 < (render v).length := by
  obtain ⟨c, cs, hcs, -⟩ := exists_cons_render v
  rw [hcs]
  exact Nat.succ_pos _

-- By recursion on the value: the fuel is never less than the length of its text, so it does not run
-- out, and each reader leaves alone what follows. Only a number could go on into it.
mutual

theorem scanValue?_render : ∀ (v : Value) (fuel : Nat) (rest : List Char),
    (render v).length ≤ fuel → Number.Ends rest →
      scanValue? fuel (render v ++ rest) = some (v, rest)
  | v, 0, _, h, _ => absurd h (Nat.not_le_of_lt (length_render_pos v))
  | .null, fuel + 1, rest, _, _ => by
    simp [render, scanValue?, skipBlanks_cons, isBlank, afterWord?]
  | .bool true, fuel + 1, rest, _, _ => by
    simp [render, scanValue?, skipBlanks_cons, isBlank, afterWord?]
  | .bool false, fuel + 1, rest, _, _ => by
    simp [render, scanValue?, skipBlanks_cons, isBlank, afterWord?]
  | .number n, fuel + 1, rest, _, hrest => by
    obtain ⟨c, cs, hcs, hc⟩ := exists_cons_number n
    obtain ⟨hblank, hne⟩ := number_head hc
    have hscan := Number.scan?_render n hrest
    rw [hcs, List.cons_append] at hscan
    rw [render, hcs, List.cons_append, scanValue?, skipBlanks_cons hblank]
    simp [hne, hscan]
  | .string text, fuel + 1, rest, _, _ => by
    obtain ⟨cs, hcs, hscan⟩ := scanString?_renderString text
    rw [render, hcs, List.cons_append, scanValue?, skipBlanks_cons rfl]
    simp [hscan]
  | .array [], fuel + 1, rest, _, _ => by
    simp [render, scanValue?, skipBlanks_cons, isBlank]
  | .array (v :: vs), fuel + 1, rest, h, _ => by
    simp only [render, List.length_cons, List.length_append] at h
    have hv := scanValue?_render v fuel (renderElements vs ++ rest) (by omega)
      (ends_renderElements vs rest)
    have hvs := scanElements?_render vs fuel rest (by omega)
    obtain ⟨c, cs, hcs, hblank, hne⟩ := exists_cons_render v
    rw [hcs] at hv
    simp only [render, hcs, List.cons_append, List.append_assoc] at hv ⊢
    rw [scanValue?, skipBlanks_cons rfl]
    simp [skipBlanks_cons hblank, hne, hv, hvs]
  | .object [], fuel + 1, rest, _, _ => by
    simp [render, scanValue?, skipBlanks_cons, isBlank]
  | .object ((key, v) :: members), fuel + 1, rest, h, _ => by
    simp only [render, List.length_cons, List.length_append] at h
    have hv := scanValue?_render v fuel (renderMembers members ++ rest) (by omega)
      (ends_renderMembers members rest)
    have hmembers := scanMembers?_render members fuel rest (by omega)
    have hkey := scanKey?_renderString key (render v ++ (renderMembers members ++ rest))
    obtain ⟨cs, hcs, -⟩ := scanString?_renderString key
    rw [hcs] at hkey
    simp only [render, hcs, List.cons_append, List.append_assoc] at hkey ⊢
    rw [scanValue?, skipBlanks_cons rfl]
    simp [skipBlanks_cons (c := '"') rfl, hkey, hv, hmembers]

theorem scanElements?_render : ∀ (vs : List Value) (fuel : Nat) (rest : List Char),
    (renderElements vs).length ≤ fuel →
      scanElements? fuel (renderElements vs ++ rest) = some (vs, rest)
  | [], fuel + 1, rest, _ => by simp [renderElements, scanElements?, skipBlanks_cons, isBlank]
  | v :: vs, fuel + 1, rest, h => by
    simp only [renderElements, List.length_cons, List.length_append] at h
    have hv := scanValue?_render v fuel (renderElements vs ++ rest) (by omega)
      (ends_renderElements vs rest)
    have hvs := scanElements?_render vs fuel rest (by omega)
    simp only [renderElements, List.cons_append, List.append_assoc]
    rw [scanElements?, skipBlanks_cons rfl]
    simp [hv, hvs]
  | [], 0, _, h => absurd h (by simp [renderElements])
  | v :: vs, 0, _, h => absurd h (by simp [renderElements])

theorem scanMembers?_render : ∀ (members : Members) (fuel : Nat) (rest : List Char),
    (renderMembers members).length ≤ fuel →
      scanMembers? fuel (renderMembers members ++ rest) = some (members, rest)
  | [], fuel + 1, rest, _ => by simp [renderMembers, scanMembers?, skipBlanks_cons, isBlank]
  | (key, v) :: members, fuel + 1, rest, h => by
    simp only [renderMembers, List.length_cons, List.length_append] at h
    have hv := scanValue?_render v fuel (renderMembers members ++ rest) (by omega)
      (ends_renderMembers members rest)
    have hmembers := scanMembers?_render members fuel rest (by omega)
    have hkey := scanKey?_renderString key (render v ++ (renderMembers members ++ rest))
    simp only [renderMembers, List.cons_append, List.append_assoc]
    rw [scanMembers?, skipBlanks_cons rfl]
    simp [hkey, hv, hmembers]
  | [], 0, _, h => absurd h (by simp [renderMembers])
  | _ :: _, 0, _, h => absurd h (by simp [renderMembers])

end

/-- **Reading the text of a value** gives the value. -/
theorem Value.parse?_print (v : Value) : Value.parse? v.print = some v := by
  have hscan := scanValue?_render v ((render v).length + 1) [] (Nat.le_succ _)
    ⟨fun _ h => absurd h (by simp), by simp⟩
  rw [List.append_nil] at hscan
  rw [Value.parse?, Value.print, String.toList_ofList]
  simp only [hscan]
  rfl

end MachineMonitor.Json

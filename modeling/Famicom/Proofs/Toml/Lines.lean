/-
  Reading lines that say one thing each.

  A plain document has no comments, no dotted keys and nothing that runs over several lines: a line is
  empty, or opens a table, or gives a number or a short text to a name.

  1. **Numbers** (`scalar?_toDigits`): the digits of a number are no moment, stand for an integer, and for
     that number.
  2. **Values** (`writes_number`, `writes_string`): up to the end of its line, a number or a text in
     quotes is read as itself, whatever follows.
  3. **Keys** (`key?_bare`): so is a name without quotes.
  4. **Tables** (`assign_of_notMem`, `extendAt_put`): a value under a new name goes behind the others.
  5. **Lines** (`Reads.newline`, `Reads.header`, `Reads.pair`): each line takes at least one character, so
     the length of what is left bounds the steps.

  Main statements: a run of values under names of their own goes behind what is there, in order
  (`Reads.fields`, `Reads.fieldsOf`); what all lines make of nothing is the document
  (`Reads.document?_eq`).
-/
import Mathlib.Data.List.Basic
import Mathlib.Data.List.TakeWhile
import Famicom.Toml.Writer

namespace Famicom.Toml

section

variable {cs : List Char} {c x : Char}

/-! ## Characters -/

/-- Characters are told apart by what holds of one of them alone. -/
theorem ne_of_holds {p : Char → Bool} (hc : p c) (hx : p x = false) : c ≠ x := by
  rintro rfl
  exact Bool.false_ne_true (hx.symm.trans hc)

/-- Digits may stand in a name. -/
theorem isBare_of_isDigit (h : isDigit c) : isBare c := by
  unfold isBare
  rw [h]
  rfl

/-- A name begins where the blanks end. -/
theorem dropWhile_isBlank (h : isBare c) (cs : List Char) : (c :: cs).dropWhile isBlank = c :: cs := by
  have hspace : c ≠ ' ' := ne_of_holds h (by decide)
  have htab : c ≠ '\t' := ne_of_holds h (by decide)
  refine List.dropWhile_cons_of_neg ?_
  simp [isBlank, hspace, htab]

/-! ## Numbers -/

/-- Decimal digits are digits. -/
theorem isDigit_of_mem_toDigits {n : Nat} (h : c ∈ Nat.toDigits 10 n) : isDigit c := by
  have := Nat.isDigit_of_mem_toDigits (by decide) (by decide) h
  simpa [isDigit, Char.isDigit, Char.le_def] using this

/-- A digit is read as its value. -/
theorem digit?_of_isDigit (h : isDigit c) : digit? 10 c = some (c.toNat - '0'.toNat) := by
  have hrange : '0' ≤ c ∧ c ≤ '9' := by simpa [isDigit] using h
  have hlt : c.toNat - '0'.toNat < 10 := by
    have hnine : c.toNat ≤ '9'.toNat := hrange.2
    show c.toNat - 48 < 10
    exact Nat.lt_succ_of_le (Nat.sub_le_sub_right hnine 48)
  unfold digit?
  dsimp only
  rw [if_pos hrange, if_pos hlt]

/-- Digits stand for the number that they are the digits of. -/
theorem foldlM_digit? (h : ∀ c ∈ cs, isDigit c) (n : Nat) :
    cs.foldlM (fun n c => (digit? 10 c).map (n * 10 + ·)) n = some (Nat.ofDigitChars 10 cs n) := by
  induction cs generalizing n with
  | nil => rfl
  | cons c cs ih =>
    rw [List.foldlM_cons, digit?_of_isDigit (h c List.mem_cons_self), Option.map_some,
      Option.bind_eq_bind, Option.bind_some, ih fun c hc => h c (List.mem_cons_of_mem _ hc),
      Nat.ofDigitChars_cons, Nat.mul_comm]

/-- A number in decimal digits is read as the number. -/
theorem number?_toDigits (n : Nat) : number? 10 (Nat.toDigits 10 n) = some n := by
  have hne : (Nat.toDigits 10 n).isEmpty = false := by
    rw [List.isEmpty_eq_false_iff]
    exact Nat.toDigits_ne_nil
  unfold number?
  rw [hne, if_neg Bool.false_ne_true, foldlM_digit? fun _ => isDigit_of_mem_toDigits,
    Nat.ofDigitChars_ten_toDigits]

/-- Only zero begins with a zero. -/
theorem head?_toDigits {n : Nat} (h : 0 < n) : (Nat.toDigits 10 n).head? ≠ some '0' := by
  induction n using Nat.strongRecOn with
  | ind n ih =>
    rw [Nat.toDigits_eq_if (by decide)]
    split
    · intro hzero
      rw [List.head?_cons, Option.some.injEq, Nat.digitChar_eq_zero] at hzero
      omega
    · rw [List.head?_append_of_ne_nil _ Nat.toDigits_ne_nil]
      exact ih (n / 10) (by omega) (by omega)

/-- Digits do not begin with any other character. -/
theorem skipChar?_digits (h : ∀ c ∈ cs, isDigit c) (hx : isDigit x = false) :
    skipChar? x cs = none := by
  cases cs with
  | nil => rfl
  | cons c cs => exact if_neg (ne_of_holds (h c List.mem_cons_self) hx)

/-- A fixed count of digits leaves the characters behind them. -/
theorem fixedDigits?_rest {count n : Nat} {rest : List Char}
    (h : fixedDigits? count cs = some (n, rest)) : rest = cs.drop count := by
  unfold fixedDigits? at h
  dsimp only at h
  split at h
  · obtain ⟨_, -, heq⟩ := Option.map_eq_some_iff.mp h
    exact (congrArg Prod.snd heq).symm
  · cases h

/-- Behind some of the digits there is no mark. -/
theorem skipChar?_behind_digits (h : ∀ c ∈ cs, isDigit c) {count n : Nat} {rest : List Char}
    (hfixed : fixedDigits? count cs = some (n, rest)) (hx : isDigit x = false) :
    skipChar? x rest = none := by
  have hrest := fixedDigits?_rest hfixed
  exact skipChar?_digits (fun c hc => h c (List.mem_of_mem_drop (hrest ▸ hc))) hx

/-- Digits alone are neither a date nor a time. -/
theorem isMoment_digits (h : ∀ c ∈ cs, isDigit c) : isMoment cs = false := by
  have hdate : date? cs = none := by
    unfold date?
    cases hyear : fixedDigits? 4 cs with
    | none => rfl
    | some year =>
      simp only [Option.bind_eq_bind, Option.bind_some]
      rw [skipChar?_behind_digits h hyear (by decide)]
      rfl
  have htime : time? cs = none := by
    unfold time?
    cases hhour : fixedDigits? 2 cs with
    | none => rfl
    | some hour =>
      simp only [Option.bind_eq_bind, Option.bind_some]
      rw [skipChar?_behind_digits h hhour (by decide)]
      rfl
  unfold isMoment
  rw [hdate, htime]
  rfl

end

/-- A whole number in decimal digits is read as an integer. -/
theorem integer?_toDigits (n : Nat) : integer? (Nat.toDigits 10 n) = some (.integer (some n)) := by
  have hdigits : ∀ c ∈ Nat.toDigits 10 n, isDigit c := fun _ => isDigit_of_mem_toDigits
  have hsigned : splitSign (Nat.toDigits 10 n) = (none, Nat.toDigits 10 n) := by
    unfold splitSign
    split
    · next rest heq => exact absurd (hdigits '+' (heq ▸ List.mem_cons_self)) (by decide)
    · next rest heq => exact absurd (hdigits '-' (heq ▸ List.mem_cons_self)) (by decide)
    · rfl
  have hdropped : (Nat.toDigits 10 n).dropWhile isDigit = [] := List.dropWhile_eq_nil_iff.mpr hdigits
  have hshaped : (Nat.toDigits 10 n = ['0'] ||
      (!(Nat.toDigits 10 n).isEmpty && (Nat.toDigits 10 n).head? ≠ some '0')) = true := by
    rcases Nat.eq_zero_or_pos n with rfl | hpos
    · rfl
    · simp [Nat.toDigits_ne_nil, head?_toDigits hpos]
  have hungrouped : ungrouped (Nat.toDigits 10 n) = Nat.toDigits 10 n :=
    List.filter_eq_self.mpr fun c hc => by simpa using ne_of_holds (hdigits c hc) (by decide)
  have hdecimal : decimalInteger? (Nat.toDigits 10 n) = some (.integer (some n)) := by
    unfold decimalInteger?
    rw [hsigned]
    dsimp only
    rw [hdropped]
    dsimp only
    rw [hshaped, if_pos rfl, hungrouped, number?_toDigits]
    rfl
  -- no mark of another base stands in second place
  unfold integer?
  split
  · next rest heq => exact absurd (hdigits 'x' (heq ▸ by simp)) (by decide)
  · next rest heq => exact absurd (hdigits 'o' (heq ▸ by simp)) (by decide)
  · next rest heq => exact absurd (hdigits 'b' (heq ▸ by simp)) (by decide)
  · exact hdecimal

/-- The digits of a number stand for it. -/
theorem scalar?_toDigits (n : Nat) : scalar? (Nat.toDigits 10 n) = some (.integer (some n)) := by
  have hdigits : ∀ c ∈ Nat.toDigits 10 n, isDigit c := fun _ => isDigit_of_mem_toDigits
  unfold scalar?
  rw [if_neg, if_neg, isMoment_digits hdigits, if_neg Bool.false_ne_true, integer?_toDigits]
  · intro heq
    exact absurd (hdigits 'f' (heq ▸ List.mem_cons_self)) (by decide)
  · intro heq
    exact absurd (hdigits 't' (heq ▸ List.mem_cons_self)) (by decide)

/-! ## Values -/

/-- A text in front of the end of its line is read as a value, whatever follows. -/
structure Writes (text : List Char) (v : Value) : Prop where
  front : ∀ rest, (text ++ '\n' :: rest).dropWhile isBlank = text ++ '\n' :: rest
  reads : ∀ steps depth rest, value? (steps + 1) depth (text ++ '\n' :: rest) = some (v, '\n' :: rest)

/-- A value is read up to the end of its line. -/
theorem scalarAt?_line {cs : List Char} (h : ∀ c ∈ cs, isScalarChar c) (rest : List Char) :
    scalarAt? (cs ++ '\n' :: rest) = (scalar? cs).map fun v => (v, '\n' :: rest) := by
  unfold scalarAt?
  rw [List.takeWhile_append_of_pos h, List.dropWhile_append_of_pos h,
    List.takeWhile_cons_of_neg (by decide), List.dropWhile_cons_of_neg (by decide), List.append_nil]
  rfl

theorem isScalarChar_of_isDigit {c : Char} (h : isDigit c) : isScalarChar c := by
  have hdividers : ['=', ',', '[', ']', '{', '}', ' ', '\t', '#', '\r', '\n'].all (!isDigit ·) := by
    decide
  unfold isScalarChar
  rw [Bool.not_eq_true', ← Bool.not_eq_true, List.contains_iff_mem]
  intro hc
  have hno := List.all_eq_true.mp hdividers c hc
  rw [h] at hno
  cases hno

/-- What begins with a digit is read as a value without quotes or brackets. -/
theorem value?_digit {c : Char} (h : isDigit c) (steps depth : Nat) (cs : List Char) :
    value? (steps + 1) depth (c :: cs) = scalarAt? (c :: cs) := by
  have hquotes : ¬(c = '"' ∨ c = '\'') := by
    rintro (rfl | rfl)
    · exact absurd h (by decide)
    · exact absurd h (by decide)
  unfold value?
  dsimp only
  rw [if_neg hquotes, if_neg (ne_of_holds h (by decide)), if_neg (ne_of_holds h (by decide))]

/-- So a number is written by its digits. -/
theorem writes_number (n : Nat) : Writes (Nat.toDigits 10 n) (.integer (some n)) := by
  have hdigits : ∀ c ∈ Nat.toDigits 10 n, isDigit c := fun _ => isDigit_of_mem_toDigits
  obtain ⟨c, cs, hcs⟩ := List.exists_cons_of_ne_nil (Nat.toDigits_ne_nil (n := n) (b := 10))
  have hc : isDigit c := hdigits c (hcs ▸ List.mem_cons_self)
  constructor
  · intro rest
    rw [hcs, List.cons_append, dropWhile_isBlank (isBare_of_isDigit hc)]
  · intro steps depth rest
    have hline := scalarAt?_line (fun c hc => isScalarChar_of_isDigit (hdigits c hc)) rest
    rw [scalar?_toDigits, hcs] at hline
    rw [hcs, List.cons_append, value?_digit hc]
    exact hline

/-- A string without a quote or an escape is read up to its quote. -/
theorem lineString?_plain {text : List Char} (h : text.all isPlain) (rest : List Char) :
    lineString? '"' (text ++ '"' :: rest) = some (text, rest) := by
  induction text with
  | nil =>
    rw [List.nil_append, lineString?, if_pos rfl]
  | cons c text ih =>
    rw [List.all_cons, Bool.and_eq_true] at h
    have hc := h.1
    simp only [isPlain, Bool.and_eq_true, decide_eq_true_eq] at hc
    obtain ⟨⟨htext, hquote⟩, hescape⟩ := hc
    rw [List.cons_append, lineString?, if_neg hquote, if_neg (fun h => hescape h.1), if_pos htext,
      ih h.2]
    rfl

/-- So a plain string is written between quotes. -/
theorem writes_string {text : List Char} (hne : text ≠ []) (h : text.all isPlain) :
    Writes ('"' :: text ++ ['"']) (.string (String.ofList text)) := by
  refine ⟨fun _ => rfl, ?_⟩
  intro steps depth rest
  have hquoted : quoted? '"' (text ++ '"' :: '\n' :: rest) = some (String.ofList text, '\n' :: rest) := by
    obtain ⟨c, cs, rfl⟩ := List.exists_cons_of_ne_nil hne
    have hc := List.all_eq_true.mp h c List.mem_cons_self
    have hquote : c ≠ '"' := by
      simp only [isPlain, Bool.and_eq_true, decide_eq_true_eq] at hc
      exact hc.1.2
    have hfront : (c :: cs ++ '"' :: '\n' :: rest).take 2 ≠ ['"', '"'] := fun heq =>
      hquote (List.cons.inj heq).1
    unfold quoted?
    rw [if_neg hfront, lineString?_plain h]
    rfl
  have hvalue : value? (steps + 1) depth ('"' :: (text ++ '"' :: '\n' :: rest)) =
      some (.string (String.ofList text), '\n' :: rest) := by
    unfold value?
    dsimp only
    rw [if_pos (Or.inl rfl), hquoted]
    rfl
  rw [List.cons_append, List.cons_append, List.append_assoc]
  exact hvalue

/-- What a value is written as is read as the value. -/
theorem writes_scalar {v : Scalar} (h : v.IsPlain) : Writes v.written v.value := by
  cases v with
  | text s =>
    have hwrites := writes_string h.1 h.2
    rwa [String.ofList_toList] at hwrites
  | whole n => exact writes_number n

/-! ## Keys -/

section

variable {name : String}

/-- A name has a first character. -/
theorem IsBareKey.exists_cons (h : IsBareKey name) : ∃ c cs, name.toList = c :: cs ∧ isBare c := by
  obtain ⟨c, cs, hcs⟩ := List.exists_cons_of_ne_nil h.1
  exact ⟨c, cs, hcs, List.all_eq_true.mp h.2 c (hcs ▸ List.mem_cons_self)⟩

/-- A name begins with none of the characters that no name has. -/
theorem IsBareKey.append_ne (h : IsBareKey name) {x : Char} (hx : isBare x = false)
    (rest cs : List Char) : name.toList ++ rest ≠ x :: cs := by
  obtain ⟨c, front, hfront, hc⟩ := h.exists_cons
  rw [hfront]
  exact fun heq => ne_of_holds hc hx (List.cons.inj heq).1

/-- A name is read up to the first character that may not stand in it. -/
theorem simpleKey?_bare (h : IsBareKey name) {rest : List Char} (hend : rest.takeWhile isBare = []) :
    simpleKey? (name.toList ++ rest) = some (name, rest) := by
  have hall : ∀ c ∈ name.toList, isBare c := List.all_eq_true.mp h.2
  have hrest : rest.dropWhile isBare = rest := by
    conv_rhs => rw [← List.takeWhile_append_dropWhile (p := isBare) (l := rest), hend, List.nil_append]
  have hbare : ((name.toList ++ rest).takeWhile isBare) = name.toList := by
    rw [List.takeWhile_append_of_pos hall, hend, List.append_nil]
  unfold simpleKey?
  split
  · next heq => exact absurd heq (h.append_ne (by decide) _ _)
  · next heq => exact absurd heq (h.append_ne (by decide) _ _)
  · rw [hbare, List.dropWhile_append_of_pos hall, hrest, if_neg (by simpa using h.1),
      String.ofList_toList]

/-- A name is read as a key up to what ends it. -/
theorem key?_bare (h : IsBareKey name) {rest : List Char} (hend : rest.takeWhile isBare = [])
    (hdot : (rest.dropWhile isBlank).head? ≠ some '.') :
    key? (name.toList ++ rest) = some ([name], rest.dropWhile isBlank) := by
  obtain ⟨c, cs, hcs, hc⟩ := h.exists_cons
  have hfront : (name.toList ++ rest).dropWhile isBlank = name.toList ++ rest := by
    rw [hcs, List.cons_append, dropWhile_isBlank hc]
  unfold key? depthLimit dottedKey?
  rw [hfront, simpleKey?_bare h hend, Option.bind_eq_bind, Option.bind_some]
  dsimp only
  split
  · next heq =>
    rw [heq] at hdot
    exact absurd rfl hdot
  · rfl

end

/-! ## Tables -/

namespace Entries

variable {key : String} {t : Entries}

/-- Nothing is found under a key that is not there. -/
theorem find?_eq_none_iff : t.find? key = none ↔ key ∉ t.map Prod.fst := by
  induction t with
  | nil => simp [find?]
  | cons e t ih =>
    rw [find?, List.map_cons, List.mem_cons, not_or]
    by_cases h : e.1 = key
    · simp [h]
    · rw [if_neg h, ih]
      exact (and_iff_right (Ne.symm h)).symm

/-- A new key comes behind the others. -/
theorem put_of_notMem (h : key ∉ t.map Prod.fst) (node : Node) : t.put key node = t ++ [(key, node)] := by
  induction t with
  | nil => rfl
  | cons e t ih =>
    rw [List.map_cons, List.mem_cons, not_or] at h
    rw [put, if_neg (Ne.symm h.1), ih h.2]
    rfl

/-- A value is put behind the others. -/
theorem assign_of_notMem (h : key ∉ t.map Prod.fst) (v : Value) :
    assign v [key] t = some (t ++ [(key, .closed v)]) := by
  have hnone : (t.find? key).isSome = false := by
    rw [find?_eq_none_iff.mpr h]
    rfl
  unfold assign
  rw [hnone, if_neg Bool.false_ne_true, put_of_notMem h]

/-- What is put last under a key stays. -/
theorem put_put (node node' : Node) : (t.put key node).put key node' = t.put key node' := by
  induction t with
  | nil => simp [put]
  | cons e t ih =>
    by_cases h : e.1 = key
    · simp [put, h]
    · simp [put, h, ih]

/-- What is added to a table that was just put there. -/
theorem extendAt_put {k : String} {o : Origin} {f : Entries → Option Entries} {entries u : Entries}
    (hf : f entries = some u) :
    (t.put k (.table o entries)).extendAt f [k] = some (t.put k (.table o u)) := by
  unfold extendAt
  rw [find?_put_self]
  simp only [Option.bind_eq_bind, Option.bind_some, Node.extend, extendAt, hf, Option.map_some,
    Option.pure_def, put_put]

end Entries

/-! ## Lines -/

section

variable {path : List String} {t : Entries} {name : String}

/-- A line that opens a table. -/
theorem line?_header (h : IsBareKey name) (rest : List Char) :
    line? path t ('[' :: (name.toList ++ ']' :: '\n' :: rest)) =
      (t.openTable [name]).map fun u => ([name], u, rest) := by
  unfold line?
  split
  · next heq => exact absurd (List.cons.inj heq).2 (h.append_ne (by decide) _ _)
  · next heq =>
    cases heq
    have hkey : key? (name.toList ++ ']' :: '\n' :: rest) = some ([name], ']' :: '\n' :: rest) :=
      key?_bare h rfl (fun hdot => by cases hdot)
    rw [hkey]
    simp only [Option.bind_eq_bind, Option.bind_some]
    cases t.openTable [name] with
    | none => rfl
    | some u => rfl
  · next hno => exact absurd rfl (hno _)

/-- A line that gives a value to a name. -/
theorem line?_pair (h : IsBareKey name) {text : List Char} {v : Value} (hv : Writes text v)
    (rest : List Char) :
    line? path t (name.toList ++ ' ' :: '=' :: ' ' :: (text ++ '\n' :: rest)) =
      (t.extendAt (Entries.assign v [name]) path).map fun u => (path, u, rest) := by
  have hkey : key? (name.toList ++ ' ' :: '=' :: ' ' :: (text ++ '\n' :: rest)) =
      some ([name], '=' :: ' ' :: (text ++ '\n' :: rest)) :=
    key?_bare h rfl (fun hdot => by cases hdot)
  unfold line?
  split
  · next heq => exact absurd heq (h.append_ne (by decide) _ _)
  · next heq => exact absurd heq (h.append_ne (by decide) _ _)
  · rw [hkey]
    simp only [Option.bind_eq_bind, Option.bind_some, skipChar?, if_pos]
    rw [List.dropWhile_cons_of_pos (by rfl), hv.front, hv.reads]
    simp only [Option.bind_some]
    cases t.extendAt (Entries.assign v [name]) path with
    | none => rfl
    | some u => rfl

end

/-- Values under their names, as nodes to which nothing can be added. -/
def closedNodes (es : List (String × Scalar)) : Entries := es.map fun e => (e.1, .closed e.2.value)

theorem map_fst_closedNodes (es : List (String × Scalar)) :
    (closedNodes es).map Prod.fst = es.map Prod.fst := List.map_map

/-- The values of entries are taken one by one. -/
theorem entriesValue_append (t u : Entries) :
    entriesValue (t ++ u) = entriesValue t ++ entriesValue u := by
  induction t with
  | nil => rfl
  | cons e t ih => exact congrArg ((e.1, e.2.value) :: ·) ih

/-- Values that were put in are the values of the table. -/
theorem entriesValue_closedNodes (es : List (String × Scalar)) :
    entriesValue (closedNodes es) = es.map entry := by
  induction es with
  | nil => rfl
  | cons e es ih => exact congrArg (entry e :: ·) ih

/-- What lines make of the tables that are there, given enough steps. -/
def Reads (path : List String) (t : Entries) (cs : List Char) (u : Entries) : Prop :=
  ∀ steps, cs.length < steps → lines? steps path t cs = some u

namespace Reads

variable {path : List String} {t t' u : Entries} {rest : List Char} {name : String}

/-- No lines make nothing of a table. -/
theorem nil : Reads path t [] t := by
  intro steps hsteps
  obtain ⟨steps, rfl⟩ := Nat.exists_eq_succ_of_ne_zero (Nat.ne_of_gt hsteps)
  rfl

/-- An empty line changes nothing. -/
theorem newline (h : Reads path t rest u) : Reads path t ('\n' :: rest) u := by
  intro steps hsteps
  obtain ⟨steps, rfl⟩ := Nat.exists_eq_succ_of_ne_zero (Nat.ne_zero_of_lt hsteps)
  exact h steps (Nat.lt_of_succ_lt_succ hsteps)

/-- Once a line is read, the next ones are. -/
theorem line {c : Char} {cs : List Char} {next : List String}
    (hblank : (c :: cs).dropWhile isBlank = c :: cs) (hskip : ¬(c = '#' ∨ c = '\n' ∨ c = '\r'))
    (hline : line? path t (c :: cs) = some (next, t', rest))
    (hlength : rest.length ≤ cs.length) (h : Reads next t' rest u) : Reads path t (c :: cs) u := by
  intro steps hsteps
  obtain ⟨steps, rfl⟩ := Nat.exists_eq_succ_of_ne_zero (Nat.ne_zero_of_lt hsteps)
  have hrest := h steps (Nat.lt_of_le_of_lt hlength (Nat.lt_of_succ_lt_succ hsteps))
  unfold lines?
  rw [hblank]
  dsimp only
  rw [if_neg hskip, hline]
  exact hrest

/-- A table that is not there yet is opened. -/
theorem header (hname : IsBareKey name) (hnew : t.find? name = none)
    (h : Reads [name] (t.put name (.table .opened [])) rest u) :
    Reads path t ('[' :: (name.toList ++ ']' :: '\n' :: rest)) u := by
  have hopened : t.openTable [name] = some (t.put name (.table .opened [])) := by
    unfold Entries.openTable Entries.onHeader
    rw [hnew]
  refine line rfl (by decide) ((line?_header hname rest).trans (by rw [hopened]; rfl)) ?_ h
  simp only [List.length_append, List.length_cons]
  omega

/-- A value is given to a name. -/
theorem pair {v : Scalar} (hname : IsBareKey name) (hplain : v.IsPlain)
    (hassigned : t.extendAt (Entries.assign v.value [name]) path = some t')
    (h : Reads path t' rest u) : Reads path t (pairLine (name, v) ++ '\n' :: rest) u := by
  have hv := writes_scalar hplain
  obtain ⟨c, cs, hcs, hc⟩ := hname.exists_cons
  have hskip : ¬(c = '#' ∨ c = '\n' ∨ c = '\r') := by
    rintro (rfl | rfl | rfl)
    · exact absurd hc (by decide)
    · exact absurd hc (by decide)
    · exact absurd hc (by decide)
  have hline : line? path t (name.toList ++ ' ' :: '=' :: ' ' :: (v.written ++ '\n' :: rest)) =
      some (path, t', rest) := by
    rw [line?_pair hname hv rest, hassigned]
    rfl
  rw [hcs] at hline
  unfold pairLine
  rw [hcs]
  simp only [List.append_assoc, List.cons_append] at hline ⊢
  refine line (dropWhile_isBlank hc _) hskip hline ?_ h
  simp only [List.length_append, List.length_cons]
  omega

/-- Values under names of their own go behind what is there, in order. -/
theorem fields {es : List (String × Scalar)} (hnames : ∀ e ∈ es, IsBareKey e.1)
    (hplain : ∀ e ∈ es, e.2.IsPlain) (hnodup : (t.map Prod.fst ++ es.map Prod.fst).Nodup)
    (h : Reads [] (t ++ closedNodes es) rest u) :
    Reads [] t ((es.map pairLine).flatMap (· ++ ['\n']) ++ rest) u := by
  -- the induction is on the lines that are left: each adds its value behind those so far
  induction es generalizing t with
  | nil =>
    rw [closedNodes, List.map_nil, List.append_nil] at h
    exact h
  | cons e es ih =>
    have hfirst : e.1 ∉ t.map Prod.fst := fun hmem =>
      (List.nodup_append.mp hnodup).2.2 e.1 hmem e.1 List.mem_cons_self rfl
    have hrest := ih (fun e he => hnames e (List.mem_cons_of_mem _ he))
      (fun e he => hplain e (List.mem_cons_of_mem _ he)) (t := t ++ [(e.1, .closed e.2.value)])
      (by simpa using hnodup) (by simpa [closedNodes] using h)
    rw [List.map_cons, List.flatMap_cons, List.append_assoc, List.append_assoc]
    exact pair (hnames e List.mem_cons_self) (hplain e List.mem_cons_self)
      (Entries.assign_of_notMem hfirst _) hrest

/-- Within a table that was just opened, they go behind the values of the table. -/
theorem fieldsOf {key : String} {entries : Entries} {es : List (String × Scalar)}
    (hnames : ∀ e ∈ es, IsBareKey e.1) (hplain : ∀ e ∈ es, e.2.IsPlain)
    (hnodup : (entries.map Prod.fst ++ es.map Prod.fst).Nodup)
    (h : Reads [key] (t.put key (.table .opened (entries ++ closedNodes es))) rest u) :
    Reads [key] (t.put key (.table .opened entries))
      ((es.map pairLine).flatMap (· ++ ['\n']) ++ rest) u := by
  induction es generalizing entries with
  | nil =>
    rw [closedNodes, List.map_nil, List.append_nil] at h
    exact h
  | cons e es ih =>
    have hfirst : e.1 ∉ entries.map Prod.fst := fun hmem =>
      (List.nodup_append.mp hnodup).2.2 e.1 hmem e.1 List.mem_cons_self rfl
    have hassigned := Entries.extendAt_put (t := t) (k := key) (o := .opened)
      (Entries.assign_of_notMem hfirst e.2.value)
    have hnodup' : ((entries ++ [(e.1, Node.closed e.2.value)]).map Prod.fst ++
        es.map Prod.fst).Nodup := by simpa using hnodup
    have hrest := ih (fun e he => hnames e (List.mem_cons_of_mem _ he))
      (fun e he => hplain e (List.mem_cons_of_mem _ he)) hnodup' (by simpa [closedNodes] using h)
    rw [List.map_cons, List.flatMap_cons, List.append_assoc, List.append_assoc]
    exact pair (hnames e List.mem_cons_self) (hplain e List.mem_cons_self) hassigned hrest

/-- The document of which these are the lines. -/
theorem document?_eq {s : String} (h : Reads [] [] s.toList u) (hmark : s.toList.head? ≠ some '\uFEFF') :
    document? s = some (entriesValue u) := by
  unfold document?
  split
  · next heq =>
    rw [heq] at hmark
    exact absurd rfl hmark
  · have hread := h (s.toList.length + 1) (Nat.lt_succ_self _)
    exact congrArg (Option.map entriesValue) hread

end Reads

end Famicom.Toml

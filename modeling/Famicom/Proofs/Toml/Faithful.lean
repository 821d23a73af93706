/-
  The reader and the writer make up a faithful library.

  1. **Taking lines out** (`eraseLines_lines`): of the lines of a document those are left that give a value
     to a key that is kept, or open a table that is.
  2. **Lines and text** (`toList_eraseKeys_text`): no line holds a newline, so the lines of a text are those
     that it was written as.
  3. **Reading them** (`reads_linesLeft`): each line that is left adds what it says, behind what is there.

  Main statement: `faithful_library`.
-/
import Famicom.Proofs.Toml.Lines

namespace Famicom.Toml

variable {removed : List String → Bool} {d : Document} {es : List (String × Scalar)}
  {ts : List (String × List (String × Scalar))}

/-! ## Taking lines out -/

/-- With no key removed a text is left as it is. -/
theorem eraseKeys_none (text : String) : eraseKeys (fun _ => false) text = text := by
  have hlines (lines : List (List Char)) (table : Option String) :
      eraseLines (fun _ => false) table lines = lines := by
    induction lines generalizing table with
    | nil => rfl
    | cons line lines ih =>
      have hkeeps (key : String) (table : Option String) : keeps (fun _ => false) table key = true := by
        cases table <;> rfl
      cases line with
      | nil => exact congrArg ([] :: ·) (ih table)
      | cons c cs =>
        rw [eraseLines]
        simp only [hkeeps, if_true, ih, ite_self]
  rw [eraseKeys, hlines, List.intercalate_splitOn, String.ofList_toList]

/-- The lines of a table that are left, with the empty one in front of it. -/
def tableLinesLeft (removed : List String → Bool) (t : String × List (String × Scalar)) :
    List (List Char) :=
  [] :: if keeps removed none t.1 then
    headerLine t.1 :: (t.2.filter (keeps removed (some t.1) ·.1)).map pairLine else []

/-- The lines of a document that are left. -/
def Document.linesLeft (removed : List String → Bool) (d : Document) : List (List Char) :=
  (d.fields.filter (keeps removed none ·.1)).map pairLine ++ d.tables.flatMap (tableLinesLeft removed)

/-- In front of what no name has, the whole name is found. -/
theorem takeWhile_name {name : String} (h : IsBareKey name) {x : Char} (hx : isBare x = false)
    (rest : List Char) : (name.toList ++ x :: rest).takeWhile isBare = name.toList := by
  rw [List.takeWhile_append_of_pos (List.all_eq_true.mp h.2),
    List.takeWhile_cons_of_neg (by rw [hx]; exact Bool.false_ne_true), List.append_nil]

/-- A line that gives a value to a key goes with the key. -/
theorem eraseLines_pairLine {e : String × Scalar} (h : IsBareKey e.1) (table : Option String)
    (rest : List (List Char)) : eraseLines removed table (pairLine e :: rest) =
      if keeps removed table e.1 then pairLine e :: eraseLines removed table rest
      else eraseLines removed table rest := by
  have hname : (pairLine e).takeWhile isBare = e.1.toList := takeWhile_name h (by decide) _
  obtain ⟨c, cs, hcs, hc⟩ := h.exists_cons
  have hline : pairLine e = c :: (cs ++ ' ' :: '=' :: ' ' :: e.2.written) := by
    rw [pairLine, hcs]
    rfl
  rw [hline] at hname ⊢
  rw [eraseLines, if_neg (ne_of_holds hc (by decide)), hname, String.ofList_toList]

/-- Of such lines those are left whose keys are kept. -/
theorem eraseLines_pairLines (h : ∀ e ∈ es, IsBareKey e.1) (table : Option String)
    (rest : List (List Char)) : eraseLines removed table (es.map pairLine ++ rest) =
      (es.filter (keeps removed table ·.1)).map pairLine ++ eraseLines removed table rest := by
  induction es with
  | nil => rfl
  | cons e es ih =>
    rw [List.map_cons, List.cons_append, eraseLines_pairLine (h e List.mem_cons_self),
      ih fun e he => h e (List.mem_cons_of_mem _ he), List.filter_cons]
    split
    · rfl
    · rfl

/-- A table that is removed keeps no key. -/
theorem keeps_eq_false {name : String} (h : keeps removed none name = false) (key : String) :
    keeps removed (some name) key = false := by
  unfold keeps at *
  dsimp only at *
  rw [h, Bool.false_and]

/-- A line that opens a table goes with the table, and so do the lines of its keys. -/
theorem eraseLines_table {t : String × List (String × Scalar)} (hname : IsBareKey t.1)
    (h : ∀ e ∈ t.2, IsBareKey e.1) (table : Option String) (rest : List (List Char)) :
    eraseLines removed table (([] :: headerLine t.1 :: t.2.map pairLine) ++ rest) =
      tableLinesLeft removed t ++ eraseLines removed (some t.1) rest := by
  have hopened : (t.1.toList ++ [']']).takeWhile isBare = t.1.toList := takeWhile_name hname (by decide) _
  rw [List.cons_append, List.cons_append, eraseLines, headerLine, eraseLines, if_pos rfl]
  dsimp only
  rw [hopened, String.ofList_toList, eraseLines_pairLines h, tableLinesLeft, headerLine]
  by_cases hkept : keeps removed none t.1 = true
  · rw [if_pos hkept, if_pos hkept]
    rfl
  · have hgone : t.2.filter (keeps removed (some t.1) ·.1) = [] :=
      List.filter_eq_nil_iff.mpr fun e _ => by
        rw [keeps_eq_false (Bool.eq_false_iff.mpr hkept)]
        exact Bool.false_ne_true
    rw [if_neg hkept, if_neg hkept, hgone]
    rfl

/-- What is left of the lines of a document, with the empty one behind the last newline. -/
theorem eraseLines_lines (h : d.IsPlain) :
    eraseLines removed none (d.lines ++ [[]]) = d.linesLeft removed ++ [[]] := by
  have htables (ts : List (String × List (String × Scalar))) (table : Option String)
      (hnames : ∀ t ∈ ts, IsBareKey t.1) (hkeys : ∀ t ∈ ts, ∀ e ∈ t.2, IsBareKey e.1) :
      eraseLines removed table
          ((ts.flatMap fun t => [] :: headerLine t.1 :: t.2.map pairLine) ++ [[]]) =
        ts.flatMap (tableLinesLeft removed) ++ [[]] := by
    induction ts generalizing table with
    | nil => rfl
    | cons t ts ih =>
      rw [List.flatMap_cons, List.flatMap_cons, List.append_assoc, List.append_assoc,
        eraseLines_table (hnames t List.mem_cons_self) (hkeys t List.mem_cons_self),
        ih _ (fun t ht => hnames t (List.mem_cons_of_mem _ ht))
          fun t ht => hkeys t (List.mem_cons_of_mem _ ht)]
  have hfields : ∀ e ∈ d.fields, IsBareKey e.1 := fun e he => h.bare e (List.mem_append_left _ he)
  have hkeys : ∀ t ∈ d.tables, ∀ e ∈ t.2, IsBareKey e.1 := fun t ht e he =>
    h.bare e (List.mem_append_right _ (List.mem_flatMap_of_mem ht he))
  unfold Document.lines Document.linesLeft
  rw [List.append_assoc, eraseLines_pairLines hfields, htables _ _ h.bare_table hkeys, List.append_assoc]

/-! ## Lines and text -/

/-- Lines with a newline behind each, the last one too. -/
theorem intercalate_lines (lines : List (List Char)) :
    ['\n'].intercalate (lines ++ [[]]) = lines.flatMap (· ++ ['\n']) := by
  induction lines with
  | nil => rfl
  | cons line lines ih =>
    rw [List.cons_append, List.intercalate_cons_of_ne_nil (by simp), ih, List.flatMap_cons]

/-- A line has no newline in it, and does not begin with a mark of the byte order. -/
structure IsLine (line : List Char) : Prop where
  notMem : '\n' ∉ line
  head_ne : line.head? ≠ some '\uFEFF'

theorem isLine_nil : IsLine [] := ⟨List.not_mem_nil, fun h => by cases h⟩

/-- Names have no newline in them. -/
theorem IsBareKey.notMem {name : String} (h : IsBareKey name) : '\n' ∉ name.toList := fun hmem =>
  absurd (List.all_eq_true.mp h.2 _ hmem) (by decide)

/-- Neither have plain values. -/
theorem Scalar.IsPlain.notMem {v : Scalar} (h : v.IsPlain) : '\n' ∉ v.written := by
  cases v with
  | text s =>
    have hs : '\n' ∉ s.toList := fun hmem => absurd (List.all_eq_true.mp h.2 _ hmem) (by decide)
    simp [Scalar.written, hs]
  | whole n => exact fun hmem => absurd (isDigit_of_mem_toDigits hmem) (by decide)

/-- A key with a plain value takes one line. -/
theorem isLine_pairLine {e : String × Scalar} (hname : IsBareKey e.1) (hplain : e.2.IsPlain) :
    IsLine (pairLine e) := by
  obtain ⟨c, cs, hcs, hc⟩ := hname.exists_cons
  constructor
  · simp [pairLine, hname.notMem, hplain.notMem]
  · rw [pairLine, hcs, List.cons_append, List.head?_cons]
    exact fun h => ne_of_holds hc (by decide) (Option.some.inj h)

/-- So does the name of a table. -/
theorem isLine_headerLine {name : String} (hname : IsBareKey name) : IsLine (headerLine name) := by
  constructor
  · simp [headerLine, hname.notMem]
  · exact fun h => absurd (Option.some.inj h) (by decide)

/-- The lines of a plain document are lines. -/
theorem isLine_of_mem_lines (h : d.IsPlain) : ∀ line ∈ d.lines, IsLine line := by
  intro line hline
  rcases List.mem_append.mp hline with hfield | htable
  · obtain ⟨e, he, rfl⟩ := List.mem_map.mp hfield
    have hmem : e ∈ d.scalars := List.mem_append_left _ he
    exact isLine_pairLine (h.bare e hmem) (h.plain e hmem)
  · obtain ⟨t, ht, hline⟩ := List.mem_flatMap.mp htable
    rcases List.mem_cons.mp hline with rfl | hline
    · exact isLine_nil
    rcases List.mem_cons.mp hline with rfl | hline
    · exact isLine_headerLine (h.bare_table t ht)
    · obtain ⟨e, he, rfl⟩ := List.mem_map.mp hline
      have hmem : e ∈ d.scalars := List.mem_append_right _ (List.mem_flatMap_of_mem ht he)
      exact isLine_pairLine (h.bare e hmem) (h.plain e hmem)

/-- The lines that are left were there before. -/
theorem mem_lines_of_mem_linesLeft (removed : List String → Bool) :
    ∀ line ∈ d.linesLeft removed, line ∈ d.lines := by
  intro line hline
  rcases List.mem_append.mp hline with hfield | htable
  · obtain ⟨e, he, rfl⟩ := List.mem_map.mp hfield
    exact List.mem_append_left _ (List.mem_map_of_mem (List.mem_of_mem_filter he))
  · obtain ⟨t, ht, hline⟩ := List.mem_flatMap.mp htable
    refine List.mem_append_right _ (List.mem_flatMap.mpr ⟨t, ht, ?_⟩)
    unfold tableLinesLeft at hline
    split at hline
    · rw [List.mem_cons, List.mem_cons] at hline ⊢
      refine hline.imp_right (.imp_right fun hpair => ?_)
      obtain ⟨e, he, rfl⟩ := List.mem_map.mp hpair
      exact List.mem_map_of_mem (List.mem_of_mem_filter he)
    · rw [List.mem_singleton.mp hline]
      exact List.mem_cons_self

/-- What is left of a written document is the lines that are left. -/
theorem toList_eraseKeys_text (h : d.IsPlain) : (eraseKeys removed d.text).toList =
    (d.linesLeft removed).flatMap (· ++ ['\n']) := by
  have hlines : d.text.toList.splitOn '\n' = d.lines ++ [[]] := by
    rw [Document.text, String.toList_ofList, ← intercalate_lines]
    refine List.splitOn_intercalate _ ?_ (by simp)
    intro line hline
    rcases List.mem_append.mp hline with hline | hline
    · exact (isLine_of_mem_lines h line hline).notMem
    · rw [List.mem_singleton.mp hline]
      exact List.not_mem_nil
  rw [eraseKeys, String.toList_ofList, hlines, eraseLines_lines h, intercalate_lines]

/-! ## Reading them -/

/-- Tables as nodes that their headers have opened. -/
def tableNodes (ts : List (String × List (String × Scalar))) : Entries :=
  ts.map fun t => (t.1, .table .opened (closedNodes t.2))

/-- What the lines of tables add, if the names of the tables are new. -/
theorem reads_tables (removed : List String → Bool) (hnames : ∀ t ∈ ts, IsBareKey t.1)
    (hkeys : ∀ t ∈ ts, ∀ e ∈ t.2, IsBareKey e.1)
    (hplain : ∀ t ∈ ts, ∀ e ∈ t.2, e.2.IsPlain) (htables : ∀ t ∈ ts, (t.2.map Prod.fst).Nodup)
    {t : Entries} (hnodup : (t.map Prod.fst ++ ts.map Prod.fst).Nodup) (path : List String) :
    Reads path t ((ts.flatMap (tableLinesLeft removed)).flatMap (· ++ ['\n']))
      (t ++ tableNodes ((ts.filter (keeps removed none ·.1)).map fun t =>
        (t.1, t.2.filter (keeps removed (some t.1) ·.1)))) := by
  induction ts generalizing t path with
  | nil =>
    show Reads path t [] (t ++ [])
    rw [List.append_nil]
    exact .nil
  | cons x ts ih =>
    have hnew : x.1 ∉ t.map Prod.fst := fun hmem =>
      (List.nodup_append.mp hnodup).2.2 x.1 hmem x.1 List.mem_cons_self rfl
    have hrest (u : Entries) := ih (t := u) (fun t ht => hnames t (List.mem_cons_of_mem _ ht))
      (fun t ht => hkeys t (List.mem_cons_of_mem _ ht))
      (fun t ht => hplain t (List.mem_cons_of_mem _ ht))
      (fun t ht => htables t (List.mem_cons_of_mem _ ht))
    rw [List.flatMap_cons, List.flatMap_append, tableLinesLeft, List.flatMap_cons, List.append_assoc,
      List.filter_cons]
    refine .newline ?_
    split
    · -- the table is opened, filled, and left for the next one
      let es := x.2.filter (keeps removed (some x.1) ·.1)
      have hput : t.put x.1 (.table .opened (closedNodes es)) =
          t ++ [(x.1, .table .opened (closedNodes es))] := Entries.put_of_notMem hnew _
      have hnext := hrest (t ++ [(x.1, .table .opened (closedNodes es))])
        (by simpa using hnodup) [x.1]
      rw [List.append_assoc, ← hput] at hnext
      have hfilled : Reads [x.1] (t.put x.1 (.table .opened [])) _ _ := Reads.fieldsOf
        (fun e he => hkeys x List.mem_cons_self e (List.mem_of_mem_filter he))
        (fun e he => hplain x List.mem_cons_self e (List.mem_of_mem_filter he))
        ((List.filter_sublist.map Prod.fst).nodup (htables x List.mem_cons_self)) hnext
      rw [List.flatMap_cons, List.append_assoc]
      have hopened : Reads path t _ _ := Reads.header (hnames x List.mem_cons_self)
        (Entries.find?_eq_none_iff.mpr hnew) hfilled
      simpa [headerLine, tableNodes] using hopened
    · -- the table is removed with all of its lines
      refine hrest t ?_ path
      rw [List.map_cons] at hnodup
      exact (((List.Sublist.refl _).append (List.sublist_cons_self _ _))).nodup hnodup

/-- The values of tables that were put in are those tables. -/
theorem entriesValue_tableNodes (ts : List (String × List (String × Scalar))) :
    entriesValue (tableNodes ts) = ts.map fun t => (t.1, .table (t.2.map entry)) := by
  induction ts with
  | nil => rfl
  | cons t ts ih =>
    show (t.1, Value.table (entriesValue (closedNodes t.2))) :: entriesValue (tableNodes ts) = _
    rw [ih, entriesValue_closedNodes]
    rfl

/-- What a document says is said in its own order, too. -/
theorem Document.saidBy_self (d : Document) :
    d.SaidBy (d.fields.map entry ++ d.tables.map fun t => (t.1, .table (t.2.map entry))) := by
  have htables (ts : List (String × List (String × Scalar))) :
      TablesSaidBy ts (ts.map fun t => (t.1, .table (t.2.map entry))) := by
    induction ts with
    | nil => rfl
    | cons t ts ih => exact ⟨_, _, .refl _, ih, rfl⟩
  exact ⟨_, htables d.tables, .refl _⟩

/-- No text begins with a mark of the byte order if none of its lines does. -/
theorem head?_flatMap_ne {lines : List (List Char)} (h : ∀ line ∈ lines, IsLine line) :
    (lines.flatMap (· ++ ['\n'])).head? ≠ some '\uFEFF' := by
  cases lines with
  | nil => exact fun h => by cases h
  | cons line lines =>
    have hline := (h line List.mem_cons_self).head_ne
    cases line with
    | nil => exact fun h => absurd (Option.some.inj h) (by decide)
    | cons c cs => exact hline

/-- What is left of a written document is read as what is left of the document. -/
theorem document?_eraseKeys_text (h : d.IsPlain) : document? (eraseKeys removed d.text) =
    some ((d.erase removed).fields.map entry ++
      (d.erase removed).tables.map fun t => (t.1, .table (t.2.map entry))) := by
  have hfields : ∀ e ∈ d.fields.filter (keeps removed none ·.1), e ∈ d.scalars := fun e he =>
    List.mem_append_left _ (List.mem_of_mem_filter he)
  have hmem : ∀ t ∈ d.tables, ∀ e ∈ t.2, e ∈ d.scalars := fun t ht e he =>
    List.mem_append_right _ (List.mem_flatMap_of_mem ht he)
  have hnodup : (((d.fields.filter (keeps removed none ·.1)).map Prod.fst) ++
      d.tables.map Prod.fst).Nodup :=
    ((List.filter_sublist.map Prod.fst).append (.refl _)).nodup h.nodup
  have htables := reads_tables removed h.bare_table
    (fun t ht e he => h.bare e (hmem t ht e he)) (fun t ht e he => h.plain e (hmem t ht e he))
    h.nodup_table (t := closedNodes (d.fields.filter (keeps removed none ·.1)))
    (by rwa [map_fst_closedNodes]) []
  have hreads := Reads.fields (t := []) (fun e he => h.bare e (hfields e he))
    (fun e he => h.plain e (hfields e he)) ((List.sublist_append_left _ _).nodup hnodup) htables
  rw [← List.flatMap_append] at hreads
  have hmark := head?_flatMap_ne fun line hline =>
    isLine_of_mem_lines h line (mem_lines_of_mem_linesLeft removed line hline)
  rw [← toList_eraseKeys_text h] at hmark
  have htext : (eraseKeys removed d.text).toList = _ := toList_eraseKeys_text h
  rw [Document.linesLeft] at htext
  rw [← htext] at hreads
  rw [hreads.document?_eq hmark, entriesValue_append, entriesValue_closedNodes, entriesValue_tableNodes]
  rfl

/-- The reader and the writer are a faithful library, up to any number. -/
theorem faithful_library (largest : Nat) : (library largest).Faithful largest where
  writes_iff d _ := by
    show (if d.atMost largest then some d.text else none).isSome = true ↔ _
    split
    · next h => exact iff_of_true rfl h
    · next h => exact iff_of_false Bool.false_ne_true h
  reads d text h htext removed := by
    have heq : text = d.text := by
      change (if d.atMost largest then some d.text else none) = some text at htext
      split at htext
      · exact (Option.some.inj htext).symm
      · cases htext
    have hreader : (library largest).read? = document? := rfl
    rw [heq, hreader, document?_eraseKeys_text h]
    exact ⟨_, rfl, (d.erase removed).saidBy_self⟩

end Famicom.Toml

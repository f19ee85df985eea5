import ReportExchange.Proofs.Json.Scalar
import ReportExchange.Proofs.Success

namespace ReportExchange.Json

-- Data that is written as it is: nothing torn, no moments, and whole numbers only.
inductive Writable : Datum → Prop
  | null : Writable .null
  | flag (value : Bool) : Writable (.flag value)
  | number {literal : String} : IsNumeral literal → Writable (.number literal)
  | text (value : String) : Writable (.text value)
  | list {items : List Datum} : (∀ d ∈ items, Writable d) → Writable (.list items)
  | record {entries : List (String × Datum)} :
    (∀ e ∈ entries, Writable e.2) → Writable (.record entries)

-- The start of a line.
def lineStart (depth : Nat) : List Char :=
  '\n' :: List.replicate (2 * depth) ' '

theorem isSpace_lineStart (depth : Nat) : ∀ c ∈ lineStart depth, isSpace c := by
  intro c hc
  obtain rfl | hc := List.mem_cons.mp hc
  case inl => rfl
  case inr =>
    rw [(List.mem_replicate.mp hc).2]
    rfl

theorem toList_indentation (depth : Nat) :
    (indentation depth).toList = List.replicate (2 * depth) ' ' :=
  String.toList_ofList

-- The items of a block after its first one, each on a line of its own.
def following (depth : Nat) (items : List String) : List Char :=
  items.flatMap fun item => ',' :: (lineStart depth ++ item.toList)

theorem toList_intercalate_cons (depth : Nat) (item : String) (items : List String) :
    ((",\n" ++ indentation depth).intercalate (item :: items)).toList =
      item.toList ++ following depth items := by
  induction items generalizing item
  case nil => simp [following]
  case cons next items hi =>
    have hs : (",\n" : String).toList = [',', '\n'] := rfl
    rw [String.intercalate_cons_cons, String.toList_append, String.toList_append, hi,
      String.toList_append, toList_indentation, hs]
    simp [following, lineStart]

-- What comes after the first item of a block: the others, and the bracket on a line of its own.
def closing (depth : Nat) (items : List String) (right : Char) (rest : List Char) : List Char :=
  following (depth + 1) items ++ (lineStart depth ++ right :: rest)

section Block

variable {left right : String} {l r : Char} (hl : left.toList = [l]) (hr : right.toList = [r])
  (depth : Nat) (item : String) (items : List String)

include hl hr

theorem toList_block_append (rest : List Char) :
    (block left right depth (item :: items)).toList ++ rest =
      l :: (lineStart (depth + 1) ++ (item.toList ++ closing depth items r rest)) := by
  have hn : ("\n" : String).toList = ['\n'] := rfl
  rw [block, if_neg (by simp)]
  simp only [String.toList_append, toList_intercalate_cons, toList_indentation, hn, hl, hr]
  simp [lineStart, closing]

theorem length_block : item.toList.length + (following (depth + 1) items).length + 1 <
    (block left right depth (item :: items)).toList.length := by
  rw [← List.append_nil (block left right depth (item :: items)).toList,
    toList_block_append hl hr depth item items, closing]
  simp only [List.length_cons, List.length_append]
  omega

end Block

theorem indentedItems_eq (depth : Nat) (ds : List Datum) :
    indentedItems depth ds = ds.map (indented depth) := by
  induction ds
  case nil            => rfl
  case cons d ds hi => rw [indentedItems, hi, List.map_cons]

def entryText (depth : Nat) (e : String × Datum) : String :=
  quote e.1 ++ ": " ++ indented depth e.2

theorem indentedEntries_eq (depth : Nat) (es : List (String × Datum)) :
    indentedEntries depth es = es.map (entryText depth) := by
  induction es
  case nil          => rfl
  case cons e es hi => rw [indentedEntries, hi, List.map_cons, entryText]

theorem toList_entryText (depth : Nat) (e : String × Datum) :
    (entryText depth e).toList = '\x22' :: (e.1.toList.flatMap escape ++
      '\x22' :: ':' :: ' ' :: (indented depth e.2).toList) := by
  have hs : (": " : String).toList = [':', ' '] := rfl
  rw [entryText, String.toList_append, String.toList_append, toList_quote, hs]
  simp

theorem length_entryText (depth : Nat) (e : String × Datum) :
    (indented depth e.2).toList.length < (entryText depth e).toList.length := by
  rw [toList_entryText]
  simp only [List.length_cons, List.length_append]
  omega

section Reading

variable {depth fuel : Nat} {d : Datum} {ds read : List Datum} {rest cs cs' : List Char}

-- The written form of a datum is read as this datum, up to its last character.
def Reads (depth : Nat) (d : Datum) : Prop :=
  ∀ {fuel : Nat} {rest : List Char}, Stops rest → (indented depth d).toList.length ≤ fuel →
    value fuel ((indented depth d).toList ++ rest) = some (d, rest)

theorem skipSpace_skipSpace (cs : List Char) : skipSpace (skipSpace cs) = skipSpace cs := by
  induction cs
  case nil          => rfl
  case cons c cs hi =>
    by_cases h : isSpace c
    case pos =>
      have hc : skipSpace (c :: cs) = skipSpace cs :=
        skipSpace_append (List.forall_mem_singleton.mpr h) cs
      rw [hc, hi]
    case neg => rw [skipSpace_cons h, skipSpace_cons h]

-- Blanks in front of a value make no difference.
theorem value_congr (h : skipSpace cs = skipSpace cs') : value fuel cs = value fuel cs' := by
  cases fuel
  case zero      => rfl
  case succ fuel => rw [value, value, h]

theorem items_congr (h : skipSpace cs = skipSpace cs') :
    items fuel read cs = items fuel read cs' := by
  cases fuel
  case zero      => rfl
  case succ fuel => rw [items, items, value_congr h]

theorem entries_congr {read : List (List Nat × Datum)} (h : skipSpace cs = skipSpace cs') :
    entries fuel read cs = entries fuel read cs' := by
  cases fuel
  case zero      => rfl
  case succ fuel => rw [entries, entries, h]

theorem skipSpace_lineStart (depth : Nat) (cs : List Char) :
    skipSpace (lineStart depth ++ cs) = skipSpace cs :=
  skipSpace_append (isSpace_lineStart depth) cs

theorem skipSpace_space (cs : List Char) : skipSpace (' ' :: cs) = skipSpace cs :=
  rfl

theorem stops_closing (depth : Nat) (items : List String) (right : Char) (rest : List Char) :
    Stops (closing depth items right rest) := by
  intro c hc
  cases items
  case nil =>
    cases hc
    decide
  case cons =>
    cases hc
    decide

theorem skipSpace_closing_nil (depth : Nat) {right : Char} (rest : List Char)
    (hr : ¬ isSpace right) : skipSpace (closing depth [] right rest) = right :: rest := by
  rw [closing, following, List.flatMap_nil, List.nil_append,
    skipSpace_lineStart, skipSpace_cons hr]

theorem skipSpace_closing_cons (depth : Nat) (item : String) (items : List String) (right : Char)
    (rest : List Char) : skipSpace (closing depth (item :: items) right rest) =
      ',' :: (lineStart (depth + 1) ++ (item.toList ++ closing depth items right rest)) := by
  rw [closing, following, List.flatMap_cons, List.append_assoc, List.cons_append,
    skipSpace_cons (by decide), closing, following]
  simp

theorem length_following_cons (depth : Nat) (item : String) (items : List String) :
    (following depth (item :: items)).length =
      (lineStart depth).length + item.toList.length + 1 + (following depth items).length := by
  simp only [following, List.flatMap_cons, List.length_append, List.length_cons]

theorem items_closing {d : Datum} (hd : Reads (depth + 1) d) (hds : ∀ d ∈ ds, Reads (depth + 1) d)
    (hf : (indented (depth + 1) d).toList.length +
      (following (depth + 1) (ds.map (indented (depth + 1)))).length < fuel) :
    items fuel read ((indented (depth + 1) d).toList ++
      closing depth (ds.map (indented (depth + 1))) ']' rest) =
      some (read.reverse ++ d :: ds, rest) := by
  induction ds generalizing d read fuel
  case nil =>
    cases fuel
    case zero      => exact absurd hf (Nat.not_lt_zero _)
    case succ fuel =>
      have hs : Stops (closing depth ([].map (indented (depth + 1))) ']' rest) :=
        stops_closing depth _ ']' rest
      rw [items, hd hs (by omega)]
      simp only [List.map_nil, skipSpace_closing_nil depth rest (by decide : ¬ isSpace ']')]
      simp
  case cons next ds hi =>
    cases fuel
    case zero      => exact absurd hf (Nat.not_lt_zero _)
    case succ fuel =>
      obtain ⟨hn, hds⟩ := List.forall_mem_cons.mp hds
      have hs : Stops (closing depth ((next :: ds).map (indented (depth + 1))) ']' rest) :=
        stops_closing depth _ ']' rest
      rw [List.map_cons, length_following_cons] at hf
      rw [items, hd hs (by omega)]
      simp only [List.map_cons, skipSpace_closing_cons]
      rw [items_congr (skipSpace_lineStart _ _), hi hn hds (by omega)]
      simp

-- An entry as it is read, before its key is put together.
def units (e : String × Datum) : List Nat × Datum :=
  (e.1.toList.map Char.toNat, e.2)

theorem entries_entryText {e : String × Datum} {read : List (List Nat × Datum)}
    (he : Reads depth e.2) (hs : Stops cs) (hf : (entryText depth e).toList.length ≤ fuel) :
    entries (fuel + 1) read ((entryText depth e).toList ++ cs) =
      match skipSpace cs with
      | ',' :: cs    => entries fuel (units e :: read) cs
      | '\x7d' :: cs => some ((units e :: read).reverse, cs)
      | _            => none := by
  have hl := length_entryText depth e
  have hv : value fuel ((indented depth e.2).toList ++ cs) = some (e.2, cs) := he hs (by omega)
  rw [entries, toList_entryText, List.cons_append, skipSpace_cons (by decide)]
  simp only [List.append_assoc, List.cons_append, stringRest_quote]
  rw [skipSpace_cons (by decide)]
  simp only [value_congr (skipSpace_space _), hv]
  rfl

theorem entries_closing {e : String × Datum} {es : List (String × Datum)}
    {read : List (List Nat × Datum)} (he : Reads (depth + 1) e.2)
    (hes : ∀ e ∈ es, Reads (depth + 1) e.2)
    (hf : (entryText (depth + 1) e).toList.length +
      (following (depth + 1) (es.map (entryText (depth + 1)))).length < fuel) :
    entries fuel read ((entryText (depth + 1) e).toList ++
      closing depth (es.map (entryText (depth + 1))) '\x7d' rest) =
      some (read.reverse ++ (e :: es).map units, rest) := by
  induction es generalizing e read fuel
  case nil =>
    cases fuel
    case zero      => exact absurd hf (Nat.not_lt_zero _)
    case succ fuel =>
      have hs : Stops (closing depth ([].map (entryText (depth + 1))) '\x7d' rest) :=
        stops_closing depth _ '\x7d' rest
      rw [entries_entryText he hs (by omega)]
      simp only [List.map_nil, skipSpace_closing_nil depth rest (by decide : ¬ isSpace '\x7d')]
      simp
  case cons next es hi =>
    cases fuel
    case zero      => exact absurd hf (Nat.not_lt_zero _)
    case succ fuel =>
      obtain ⟨hn, hes⟩ := List.forall_mem_cons.mp hes
      have hs : Stops (closing depth ((next :: es).map (entryText (depth + 1))) '\x7d' rest) :=
        stops_closing depth _ '\x7d' rest
      rw [List.map_cons, length_following_cons] at hf
      rw [entries_entryText he hs (by omega)]
      simp only [List.map_cons, skipSpace_closing_cons]
      rw [entries_congr (skipSpace_lineStart _ _), hi hn hes (by omega)]
      simp

theorem recordOf_units (es : List (String × Datum)) : recordOf (es.map units) = .record es := by
  rw [recordOf, mapM_map_eq_some]
  intro e _
  simp only [units, Text.ofUnits?_map_toNat, Option.map_some]

theorem reads_word {word : List Char} {c : Char} (hw : indented depth d = String.ofList (c :: word))
    (hc : c ∈ ['n', 't', 'f']) (hl : ∀ rest, literal (c :: word ++ rest) = some (d, rest)) :
    Reads depth d := by
  intro fuel rest _ hf
  rw [hw, String.toList_ofList] at hf ⊢
  have hl := hl rest
  cases fuel
  case zero      => simp at hf
  case succ fuel =>
    simp only [List.mem_cons, List.not_mem_nil, or_false] at hc
    rw [List.cons_append] at hl ⊢
    obtain rfl | rfl | rfl := hc <;> rw [value, skipSpace_cons (by decide)] <;> exact hl

theorem reads_text (s : String) : Reads depth (.text s) := by
  intro fuel rest _ hf
  rw [indented, toList_quote] at hf ⊢
  cases fuel
  case zero      => simp at hf
  case succ fuel =>
    rw [List.cons_append, value, skipSpace_cons (by decide)]
    simp [stringRest_quote, textOf_units]

theorem value_number {c : Char} (hc : c = '-' ∨ isDigit c) :
    value (fuel + 1) (c :: cs) = number (c :: cs) := by
  have hs : ¬ isSpace c := by
    obtain rfl | hd := hc
    case inl => decide
    case inr =>
      rintro h
      simp only [isSpace, Bool.or_eq_true, beq_iff_eq] at h
      obtain ((rfl | rfl) | rfl) | rfl := h <;> cases hd
  rw [value, skipSpace_cons hs]
  split
  case h_4 e =>
    cases e
    rw [if_pos hc]
  all_goals simp_all [isDigit]

theorem reads_number {literal : String} (h : IsNumeral literal) :
    Reads depth (.number literal) := by
  intro fuel rest hr hf
  obtain ⟨c, cs, hl, hc⟩ := h.eq_cons
  have hn := h.number hr
  rw [indented] at hf ⊢
  rw [hl] at hf hn ⊢
  cases fuel
  case zero      => simp at hf
  case succ fuel => rwa [List.cons_append, value_number hc]

theorem value_bracket (fuel : Nat) (cs : List Char) :
    value (fuel + 1) ('[' :: cs) = match skipSpace cs with
      | ']' :: cs => some (.list [], cs)
      | cs        => (items fuel [] cs).map fun (ds, rest) => (.list ds, rest) := by
  rw [value, skipSpace_cons (by decide)]
  rfl

theorem value_brace (fuel : Nat) (cs : List Char) :
    value (fuel + 1) ('\x7b' :: cs) = match skipSpace cs with
      | '\x7d' :: cs => some (.record [], cs)
      | cs           => (entries fuel [] cs).map fun (es, rest) => (recordOf es, rest) := by
  rw [value, skipSpace_cons (by decide)]
  rfl

-- Where there is an item, the list does not end at once.
theorem value_items (h : items fuel [] cs = some (ds, rest)) :
    value (fuel + 1) ('[' :: cs) = some (.list ds, rest) := by
  rw [value_bracket]
  split
  case h_2 => rw [items_congr (skipSpace_skipSpace cs), h, Option.map_some]
  case h_1 e =>
    rw [← items_congr (skipSpace_skipSpace cs), e] at h
    cases fuel
    case zero      => cases h
    case succ fuel =>
      cases fuel
      case zero      => cases h
      case succ fuel => cases h

theorem value_entries {es : List (List Nat × Datum)} (h : entries fuel [] cs = some (es, rest)) :
    value (fuel + 1) ('\x7b' :: cs) = some (recordOf es, rest) := by
  rw [value_brace]
  split
  case h_2 => rw [entries_congr (skipSpace_skipSpace cs), h, Option.map_some]
  case h_1 e =>
    rw [← entries_congr (skipSpace_skipSpace cs), e] at h
    cases fuel
    case zero      => cases h
    case succ fuel => cases h

theorem reads_list (h : ∀ d ∈ ds, Reads (depth + 1) d) : Reads depth (.list ds) := by
  intro fuel rest hs hf
  rw [indented, indentedItems_eq] at hf ⊢
  cases fuel
  case zero      => exact absurd hf (by cases ds <;> simp [block])
  case succ fuel =>
    cases ds
    case nil       => simp [block, value_bracket, skipSpace]
    case cons d ds =>
      obtain ⟨hd, hds⟩ := List.forall_mem_cons.mp h
      have hl : "[".toList = ['['] := rfl
      have hr : "]".toList = [']'] := rfl
      have hb := length_block hl hr depth (indented (depth + 1) d) (ds.map (indented (depth + 1)))
      rw [List.map_cons] at hf ⊢
      rw [toList_block_append hl hr]
      refine value_items ?_
      rw [items_congr (skipSpace_lineStart _ _), items_closing hd hds (by omega)]
      rfl

theorem reads_record {es : List (String × Datum)} (h : ∀ e ∈ es, Reads (depth + 1) e.2) :
    Reads depth (.record es) := by
  intro fuel rest hs hf
  rw [indented, indentedEntries_eq] at hf ⊢
  cases fuel
  case zero      => exact absurd hf (by cases es <;> simp [block])
  case succ fuel =>
    cases es
    case nil       => simp [block, value_brace, skipSpace]
    case cons e es =>
      obtain ⟨he, hes⟩ := List.forall_mem_cons.mp h
      have hl : "\x7b".toList = ['\x7b'] := rfl
      have hr : "\x7d".toList = ['\x7d'] := rfl
      have hb := length_block hl hr depth (entryText (depth + 1) e) (es.map (entryText (depth + 1)))
      rw [List.map_cons] at hf ⊢
      rw [toList_block_append hl hr, ← recordOf_units]
      refine value_entries ?_
      rw [entries_congr (skipSpace_lineStart _ _), entries_closing he hes (by omega)]
      rfl

theorem Writable.reads (h : Writable d) (depth : Nat) : Reads depth d := by
  induction h generalizing depth
  case null       => exact reads_word rfl (by decide) fun _ => rfl
  case flag value =>
    cases value
    case false => exact reads_word rfl (by decide) fun _ => rfl
    case true  => exact reads_word rfl (by decide) fun _ => rfl
  case number hl  => exact reads_number hl
  case text s     => exact reads_text s
  case list hi    => exact reads_list fun d hd => hi d hd (depth + 1)
  case record hi  => exact reads_record fun e he => hi e he (depth + 1)

end Reading

-- Whatever can be written is read back.
theorem read?_pretty {d : Datum} (h : Writable d) : read? (pretty d) = some d := by
  have hr : value (2 * (pretty d).toList.length + 2) ((pretty d).toList ++ []) = some (d, []) :=
    h.reads 0 (by rintro c ⟨⟩) (by rw [pretty]; omega)
  rw [List.append_nil] at hr
  rw [read?, hr]
  rfl

end ReportExchange.Json

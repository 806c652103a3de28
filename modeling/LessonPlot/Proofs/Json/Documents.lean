import LessonPlot.Proofs.Json.Tokens

namespace LessonPlot.Json

mutual

/-- What a document is read as once it has been written: itself, but for its numbers. -/
def reread : Json → Option Json
  | .null => some .null
  | .boolean value => some (.boolean value)
  | .number value => value.reread
  | .string value => some (.string value)
  | .array items => (rereadItems items).map .array
  | .object members => (rereadMembers members).map .object

def rereadItems : List Json → Option (List Json)
  | [] => some []
  | item :: rest => do
    let item ← item.reread
    let rest ← rereadItems rest
    some (item :: rest)

def rereadMembers : List (String × Json) → Option (List (String × Json))
  | [] => some []
  | (name, value) :: rest => do
    let value ← value.reread
    let rest ← rereadMembers rest
    some ((name, value) :: rest)

end

/-- At most so many arrays and objects lie within each other. -/
inductive Within : Nat → Json → Prop where
  | null (depth : Nat) : Within depth .null
  | boolean (depth : Nat) (value : Bool) : Within depth (.boolean value)
  | number (depth : Nat) (value : JsonNumber) : Within depth (.number value)
  | string (depth : Nat) (value : String) : Within depth (.string value)
  | array {depth : Nat} {items : List Json} (h : ∀ item ∈ items, Within depth item) :
      Within (depth + 1) (.array items)
  | object {depth : Nat} {members : List (String × Json)}
      (h : ∀ entry ∈ members, Within depth entry.2) : Within (depth + 1) (.object members)

/-- The characters of a document without any blanks. -/
def chars (json : Json) : List Char :=
  json.compact.toList

/-- The characters of a member with its name. -/
def memberChars (entry : String × Json) : List Char :=
  (quote entry.1).toList ++ ':' :: entry.2.chars

theorem intercalate_comma (first : List Char) (rest : List (List Char)) :
    [','].intercalate (first :: rest) = first ++ rest.flatMap (',' :: ·) := by
  induction rest generalizing first with
  | nil => simp [List.intercalate]
  | cons next rest ih =>
    rw [List.intercalate_cons_cons, ih, List.flatMap_cons]
    simp

/-- There are no more parts between commas than characters. -/
theorem length_le_intercalate {parts : List (List Char)} (h : ∀ part ∈ parts, part ≠ []) :
    parts.length ≤ ([','].intercalate parts).length := by
  have later (parts : List (List Char)) :
      parts.length ≤ (parts.flatMap (',' :: ·)).length := by
    induction parts with
    | nil => exact Nat.le_refl _
    | cons part parts ih =>
      simp only [List.flatMap_cons, List.length_append, List.length_cons]
      omega
  cases parts with
  | nil => exact Nat.zero_le _
  | cons first rest =>
    have pos := List.length_pos_iff.mpr (h first List.mem_cons_self)
    have le := later rest
    rw [intercalate_comma, List.length_append, List.length_cons]
    omega

theorem chars_array (items : List Json) :
    (Json.array items).chars = '[' :: ([','].intercalate (items.map chars) ++ [']']) := by
  have spelled (items : List Json) : (compactItems items).map String.toList = items.map chars := by
    induction items with
    | nil => rfl
    | cons item rest ih => simp [compactItems, ih, chars]
  simp [chars, compact, String.toList_intercalate, spelled]

theorem chars_object (members : List (String × Json)) :
    (Json.object members).chars =
      '{' :: ([','].intercalate (members.map memberChars) ++ ['}']) := by
  have spelled (members : List (String × Json)) :
      (compactMembers members).map String.toList = members.map memberChars := by
    induction members with
    | nil => rfl
    | cons entry rest ih => simp [compactMembers, ih, chars, memberChars]
  simp [chars, compact, String.toList_intercalate, spelled]

section Starts

/-- A value starts here, not the end of an array. -/
def Starts (text : List Char) : Prop :=
  ∃ c rest, text = c :: rest ∧ isBlank c = false ∧ c ≠ ']'

theorem Starts.append {text : List Char} (h : Starts text) (rest : List Char) :
    Starts (text ++ rest) := by
  obtain ⟨c, others, rfl, blank, closing⟩ := h
  exact ⟨c, others ++ rest, rfl, blank, closing⟩

theorem skipBlanks_cons {c : Char} (h : isBlank c = false) (rest : List Char) :
    skipBlanks (c :: rest) = c :: rest :=
  List.dropWhile_cons_of_neg (by simp [h])

theorem isBlank_of_isDigit {c : Char} (digit : c.isDigit = true) : isBlank c = false := by
  rw [Bool.eq_false_iff]
  intro blank
  simp only [isBlank, Bool.or_eq_true, decide_eq_true_eq] at blank
  rcases blank with ((rfl | rfl) | rfl) | rfl <;> cases digit

theorem Numeric.not_special {text : List Char} (h : Numeric text) : ∃ c rest, text = c :: rest ∧
    isBlank c = false ∧ c ≠ '[' ∧ c ≠ ']' ∧ c ≠ '{' ∧ c ≠ '"' := by
  obtain ⟨c, rest, rfl, hc⟩ := h.starts
  refine ⟨c, rest, rfl, ?_⟩
  by_cases digit : c.isDigit = true
  · refine ⟨isBlank_of_isDigit digit, ?_, ?_, ?_, ?_⟩ <;>
    · rintro rfl
      cases digit
  · rcases hc with hc | rfl | rfl
    · exact absurd hc digit
    · decide
    · decide

theorem starts_chars (json : Json) : Starts json.chars := by
  cases json with
  | null => exact ⟨'n', _, rfl, by decide, by decide⟩
  | boolean value => cases value <;> exact ⟨_, _, rfl, by decide, by decide⟩
  | number value =>
    obtain ⟨c, rest, spelled, blank, -, closing, -⟩ := value.numeric_text.not_special
    exact ⟨c, rest, spelled, blank, closing⟩
  | string value =>
    have spelled : (Json.string value).chars = '"' :: (value.toList.flatMap escape ++ ['"']) := by
      simp [chars, compact, quote]
    exact ⟨'"', _, spelled, by decide, by decide⟩
  | array items => exact ⟨'[', _, chars_array items, by decide, by decide⟩
  | object members => exact ⟨'{', _, chars_object members, by decide, by decide⟩

end Starts

section Enough

variable {γ : Type} {write : γ → List Char}

theorem length_items_lt {xs : List γ} (starts : ∀ x ∈ xs, Starts (write x)) (rest : List Char) :
    xs.length < ([','].intercalate (xs.map write) ++ rest).length + 1 := by
  have nonempty : ∀ part ∈ xs.map write, part ≠ [] := by
    intro part hp
    obtain ⟨x, hx, rfl⟩ := List.mem_map.mp hp
    obtain ⟨c, others, spelled, -⟩ := starts x hx
    simp [spelled]
  have fewer := length_le_intercalate nonempty
  rw [List.length_map] at fewer
  rw [List.length_append]
  omega

theorem length_members_lt (entries : List (String × Json)) (rest : List Char) :
    entries.length < ([','].intercalate (entries.map memberChars) ++ rest).length + 1 := by
  refine length_items_lt (fun entry _ => ?_) rest
  have spelled : memberChars entry =
      '"' :: (entry.1.toList.flatMap escape ++ '"' :: ':' :: entry.2.chars) := by
    simp [memberChars, quote]
  exact ⟨'"', _, spelled, by decide, by decide⟩

end Enough

section Items

variable {β γ : Type} {item : Nat → Reader β} {write : γ → List Char} {read : γ → Option β}

theorem nextItem_first {text : List Char} (h : Starts text) :
    nextItem true text = .ok (.item text) := by
  obtain ⟨c, rest, rfl, blank, closing⟩ := h
  simp only [nextItem, skipBlanks_cons blank]
  split <;> simp_all

theorem nextItem_later {text : List Char} (h : Starts text) :
    nextItem false (',' :: text) = .ok (.item text) := by
  obtain ⟨c, rest, rfl, blank, closing⟩ := h
  have comma : skipBlanks (',' :: c :: rest) = ',' :: c :: rest := skipBlanks_cons (by decide) _
  rw [nextItem, comma]
  change (if false = true then _ else if ',' = ',' then _ else _) = _
  rw [if_neg (by decide), if_pos rfl, skipBlanks_cons blank]
  split <;> simp_all

theorem follows_later (write : γ → List Char) (xs : List γ) {closing : Char}
    (hc : closing = ']' ∨ closing = '}') (rest : List Char) :
    Follows (xs.flatMap (',' :: write ·) ++ closing :: rest) := by
  cases xs with
  | nil =>
    rintro _ ⟨⟩
    exact .inr hc
  | cons x xs =>
    rintro _ ⟨⟩
    exact .inl rfl

/-- One item and those after it. -/
theorem toOption_items_step {text : List Char} {index fuel : Nat} {x : γ} {xs : List γ}
    {rest : List Char} (next : nextItem (index = 0) text =
      .ok (.item (write x ++ (xs.flatMap (',' :: write ·) ++ ']' :: rest))))
    (reads : Reads (item index) (write x) (read x))
    (others : (items item fuel (index + 1) (xs.flatMap (',' :: write ·) ++ ']' :: rest)).toOption =
      (xs.mapM read).map (·, rest)) :
    (items item (fuel + 1) index text).toOption = ((x :: xs).mapM read).map (·, rest) := by
  have first := reads _ (follows_later write xs (.inl rfl) rest)
  have step : items item (fuel + 1) index text =
      item index (write x ++ (xs.flatMap (',' :: write ·) ++ ']' :: rest)) >>= fun first =>
        items item fuel (index + 1) first.2 >>= fun others =>
          .ok (first.1 :: others.1, others.2) := by
    rw [items, next]
    rfl
  rw [step, toOption_bind, first, List.mapM_cons]
  cases read x with
  | none => rfl
  | some value =>
    simp only [Option.map_some, Option.bind_some, toOption_bind, others]
    cases xs.mapM read <;> rfl

/-- The items after a first one, each with a comma before it. -/
theorem toOption_items_later {xs : List γ} (starts : ∀ x ∈ xs, Starts (write x))
    (reads : ∀ x ∈ xs, ∀ index, Reads (item index) (write x) (read x)) (rest : List Char)
    {fuel index : Nat} (enough : xs.length < fuel) (later : index ≠ 0) :
    (items item fuel index (xs.flatMap (',' :: write ·) ++ ']' :: rest)).toOption =
      (xs.mapM read).map (·, rest) := by
  induction xs generalizing fuel index with
  | nil =>
    cases fuel with
    | zero => cases enough
    | succ fuel => rfl
  | cons x xs ih =>
    obtain ⟨start, starts⟩ := List.forall_mem_cons.mp starts
    obtain ⟨readsFirst, reads⟩ := List.forall_mem_cons.mp reads
    cases fuel with
    | zero => cases enough
    | succ fuel =>
      have others := ih starts reads (Nat.lt_of_succ_lt_succ enough) (Nat.succ_ne_zero index)
      refine toOption_items_step ?_ (readsFirst index) others
      rw [List.flatMap_cons, List.append_assoc, List.cons_append, decide_eq_false later]
      exact nextItem_later (start.append _)

/-- The items of an array are read one by one, up to its closing bracket. -/
theorem toOption_items {xs : List γ} (starts : ∀ x ∈ xs, Starts (write x))
    (reads : ∀ x ∈ xs, ∀ index, Reads (item index) (write x) (read x)) (rest : List Char)
    {fuel : Nat} (enough : xs.length < fuel) :
    (items item fuel 0 ([','].intercalate (xs.map write) ++ ']' :: rest)).toOption =
      (xs.mapM read).map (·, rest) := by
  cases fuel with
  | zero => cases enough
  | succ fuel =>
    cases xs with
    | nil => rfl
    | cons x xs =>
      obtain ⟨start, starts⟩ := List.forall_mem_cons.mp starts
      obtain ⟨readsFirst, reads⟩ := List.forall_mem_cons.mp reads
      have others := toOption_items_later starts reads rest (Nat.lt_of_succ_lt_succ enough)
        Nat.one_ne_zero
      refine toOption_items_step ?_ (readsFirst 0) others
      rw [List.map_cons, intercalate_comma, List.flatMap_map, List.append_assoc]
      exact nextItem_first (start.append _)

end Items

section Members

variable {σ : Type} {member : String → σ → Reader σ} {step : σ → String × Json → Option σ}

theorem nextMember_first (text : List Char) : nextMember true ('"' :: text) = .ok (.item text) :=
  rfl

theorem nextMember_later (text : List Char) :
    nextMember false (',' :: '"' :: text) = .ok (.item text) :=
  rfl

/-- How a member is read after its name. -/
def ReadsMember (member : String → σ → Reader σ) (step : σ → String × Json → Option σ)
    (entry : String × Json) : Prop :=
  ∀ known, Reads (member entry.1 known) (':' :: entry.2.chars) (step known entry)

/-- One member and those after it, from the quote of its name on. -/
theorem toOption_members_step {first : Bool} {text inside : List Char} {known : σ} {fuel : Nat}
    {entry : String × Json} {entries : List (String × Json)} {rest : List Char}
    (next : nextMember first text = .ok (.item inside))
    (name : scanQuoted inside = .ok (entry.1,
      ':' :: entry.2.chars ++ (entries.flatMap (',' :: memberChars ·) ++ '}' :: rest)))
    (reads : ReadsMember member step entry)
    (others : ∀ known, (members member fuel false known
      (entries.flatMap (',' :: memberChars ·) ++ '}' :: rest)).toOption =
        (entries.foldlM step known).map (·, rest)) :
    (members member (fuel + 1) first known text).toOption =
      ((entry :: entries).foldlM step known).map (·, rest) := by
  have read := reads known _ (follows_later memberChars entries (.inr rfl) rest)
  have run : members member (fuel + 1) first known text =
      member entry.1 known
          (':' :: entry.2.chars ++ (entries.flatMap (',' :: memberChars ·) ++ '}' :: rest)) >>=
        fun known => members member fuel false known.1 known.2 := by
    rw [members, next]
    simp only [bind, Except.bind, name]
  rw [run, toOption_bind, read, List.foldlM_cons]
  cases step known entry with
  | none => rfl
  | some known => exact others known

/-- The members after a first one, each with a comma before it. -/
theorem toOption_members_later {entries : List (String × Json)}
    (reads : ∀ entry ∈ entries, ReadsMember member step entry) (rest : List Char) {fuel : Nat}
    (enough : entries.length < fuel) (known : σ) :
    (members member fuel false known (entries.flatMap (',' :: memberChars ·) ++ '}' :: rest)).toOption =
      (entries.foldlM step known).map (·, rest) := by
  induction entries generalizing fuel known with
  | nil =>
    cases fuel with
    | zero => cases enough
    | succ fuel => rfl
  | cons entry entries ih =>
    obtain ⟨readsFirst, reads⟩ := List.forall_mem_cons.mp reads
    cases fuel with
    | zero => cases enough
    | succ fuel =>
      have others := ih reads (Nat.lt_of_succ_lt_succ enough)
      obtain ⟨inside, quoted, name⟩ := scanQuoted_quote entry.1
        (':' :: entry.2.chars ++ (entries.flatMap (',' :: memberChars ·) ++ '}' :: rest))
      refine toOption_members_step ?_ name readsFirst others
      rw [List.flatMap_cons, memberChars, List.append_assoc, List.cons_append, List.append_assoc,
        quoted]
      exact nextMember_later inside

/-- The members of an object are read one by one, up to its closing bracket. -/
theorem toOption_members {entries : List (String × Json)}
    (reads : ∀ entry ∈ entries, ReadsMember member step entry) (rest : List Char) {fuel : Nat}
    (enough : entries.length < fuel) (known : σ) :
    (members member fuel true known
      ([','].intercalate (entries.map memberChars) ++ '}' :: rest)).toOption =
      (entries.foldlM step known).map (·, rest) := by
  cases fuel with
  | zero => cases enough
  | succ fuel =>
    cases entries with
    | nil => rfl
    | cons entry entries =>
      obtain ⟨readsFirst, reads⟩ := List.forall_mem_cons.mp reads
      have others := toOption_members_later reads rest (Nat.lt_of_succ_lt_succ enough)
      obtain ⟨inside, quoted, name⟩ := scanQuoted_quote entry.1
        (':' :: entry.2.chars ++ (entries.flatMap (',' :: memberChars ·) ++ '}' :: rest))
      refine toOption_members_step ?_ name readsFirst others
      rw [List.map_cons, intercalate_comma, List.flatMap_map, memberChars, List.append_assoc,
        List.append_assoc, quoted]
      exact nextMember_first inside

end Members

section Values

theorem rereadItems_eq (items : List Json) : rereadItems items = items.mapM reread := by
  induction items with
  | nil => rfl
  | cons item rest ih => rw [rereadItems, ih, List.mapM_cons]; rfl

/-- Members that are kept with the member that is read where one more was written. -/
def keepReread (kept : List (String × Json)) (entry : String × Json) :
    Option (List (String × Json)) :=
  entry.2.reread.map fun value => kept ++ [(entry.1, value)]

theorem foldlM_keepReread (entries kept : List (String × Json)) :
    entries.foldlM keepReread kept = (rereadMembers entries).map (kept ++ ·) := by
  induction entries generalizing kept with
  | nil => simp [rereadMembers]
  | cons entry entries ih =>
    rw [List.foldlM_cons, rereadMembers, keepReread]
    cases entry.2.reread with
    | none => rfl
    | some value =>
      simp only [Option.map_some, Option.bind_eq_bind, Option.bind_some, ih]
      cases rereadMembers entries <;> simp

theorem colon_cons (text : List Char) : colon (':' :: text) = .ok text :=
  rfl

theorem readsMember_keep {reader : Reader Json} {entry : String × Json}
    (h : Reads reader entry.2.chars entry.2.reread) :
    ReadsMember (keepMember reader) keepReread entry := by
  intro kept rest follows
  have read := h rest follows
  have run : keepMember reader entry.1 kept (':' :: entry.2.chars ++ rest) =
      reader (entry.2.chars ++ rest) >>= fun read =>
        .ok (kept ++ [(entry.1, read.1)], read.2) := by
    rw [keepMember, List.cons_append, colon_cons]
    rfl
  rw [run, toOption_bind, read]
  cases hr : entry.2.reread <;> simp [keepReread, hr]

theorem valueWithin_scalar {c : Char} (blank : isBlank c = false) (array : c ≠ '[')
    (object : c ≠ '{') (depth : Nat) (rest : List Char) :
    valueWithin depth (c :: rest) = scalar (c :: rest) := by
  rw [valueWithin.eq_def]
  simp only [skipBlanks_cons blank]
  split <;> simp_all

theorem valueWithin_array (depth : Nat) (rest : List Char) :
    valueWithin (depth + 1) ('[' :: rest) =
      (items (fun _ => valueWithin depth) (rest.length + 1) 0 rest).map
        fun (values, rest) => (.array values, rest) := by
  have opened : skipBlanks ('[' :: rest) = '[' :: rest := skipBlanks_cons (by decide) rest
  rw [valueWithin.eq_def]
  simp only [opened]

theorem valueWithin_object (depth : Nat) (rest : List Char) :
    valueWithin (depth + 1) ('{' :: rest) =
      (members (keepMember (valueWithin depth)) (rest.length + 1) true [] rest).map
        fun (kept, rest) => (.object kept, rest) := by
  have opened : skipBlanks ('{' :: rest) = '{' :: rest := skipBlanks_cons (by decide) rest
  rw [valueWithin.eq_def]
  simp only [opened]

theorem reads_word (depth : Nat) {c : Char} {word : List Char} {json : Json}
    (blank : isBlank c = false) (array : c ≠ '[') (object : c ≠ '{')
    (h : ∀ rest, scalar (c :: (word ++ rest)) = .ok (json, rest)) :
    Reads (valueWithin depth) (c :: word) (some json) := by
  intro rest _
  rw [List.cons_append, valueWithin_scalar blank array object, h]
  rfl

theorem reads_string (depth : Nat) (value : String) :
    Reads (valueWithin depth) (quote value).toList (some (.string value)) := by
  intro rest _
  obtain ⟨inside, quoted, scanned⟩ := scanQuoted_quote value rest
  rw [quoted, valueWithin_scalar (by decide) (by decide) (by decide), scalar, scanned]
  rfl

/-- A document is read back from the text that is written for it. -/
theorem reads_value {depth : Nat} {json : Json} (h : Within depth json) :
    Reads (valueWithin depth) json.chars json.reread := by
  induction h with
  | null depth =>
    have word : Reads (valueWithin depth) ('n' :: "ull".toList) (some .null) :=
      reads_word depth (by decide) (by decide) (by decide) fun rest => rfl
    exact word
  | boolean depth value =>
    cases value with
    | true =>
      have word : Reads (valueWithin depth) ('t' :: "rue".toList) (some (.boolean true)) :=
        reads_word depth (by decide) (by decide) (by decide) fun rest => rfl
      exact word
    | false =>
      have word : Reads (valueWithin depth) ('f' :: "alse".toList) (some (.boolean false)) :=
        reads_word depth (by decide) (by decide) (by decide) fun rest => rfl
      exact word
  | number depth value =>
    intro rest follows
    obtain ⟨c, others, spelled, blank, array, -, object, -⟩ := value.numeric_text.not_special
    have read := value.numeric_text.uniform.reads rest follows
    have chars : (Json.number value).chars = c :: others := spelled
    rw [spelled] at read
    rw [chars, List.cons_append, valueWithin_scalar blank array object]
    rw [reread, JsonNumber.reread, spelled]
    exact read
  | string depth value => exact reads_string depth value
  | @array depth elements h ih =>
    intro rest follows
    have enough := length_items_lt (fun item (_ : item ∈ elements) => starts_chars item)
      (']' :: rest)
    have read := toOption_items (fun item _ => starts_chars item) (fun item hi _ => ih item hi)
      rest enough
    rw [chars_array, List.cons_append, valueWithin_array, toOption_map, List.append_assoc,
      List.cons_append, List.nil_append, read, reread, rereadItems_eq]
    cases elements.mapM reread <;> rfl
  | @object depth entries h ih =>
    intro rest follows
    have enough := length_members_lt entries ('}' :: rest)
    have read := toOption_members (fun entry he => readsMember_keep (ih entry he)) rest enough []
    rw [chars_object, List.cons_append, valueWithin_object, toOption_map,
      List.append_assoc, List.cons_append, List.nil_append, read, reread, foldlM_keepReread]
    cases rereadMembers entries <;> rfl

end Values

end LessonPlot.Json

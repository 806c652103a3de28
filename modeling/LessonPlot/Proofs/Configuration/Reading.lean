import LessonPlot.Proofs.Configuration.Decoding

namespace LessonPlot

namespace Json

section Readers

variable {β : Type} {reader : Reader β} {text : List Char} {outcome : Option β}

theorem Reads.under (h : Reads reader text outcome) (step : PathStep) :
    Reads (reader.under step) text outcome := by
  intro rest follows
  rw [Reader.under, toOption_mapError, h rest follows]

/-- A string is read where its text starts with a quote. -/
theorem reads_readString (value : String) :
    Reads readString (quote value).toList (some value) := by
  intro rest _
  obtain ⟨inside, quoted, scanned⟩ := scanQuoted_quote value rest
  have opened : skipBlanks ('"' :: inside) = '"' :: inside := skipBlanks_cons (by decide) inside
  rw [quoted, readString, opened]
  simp only [scanned]
  rfl

/-- A number is read as the value that stands there, if that is a number. -/
theorem toOption_readFloat {c : Char} (h : c.isDigit = true ∨ c = '-' ∨ c = 'n')
    (rest : List Char) : (readFloat (c :: rest)).toOption =
      (scalar (c :: rest)).toOption.bind fun read => read.1.asFloat.map (·, read.2) := by
  by_cases digit : c.isDigit = true
  · have blank : isBlank c = false := isBlank_of_isDigit digit
    have sign : c ≠ '-' := by
      rintro rfl
      cases digit
    have run : readFloat (c :: rest) =
        (scanNumber false (c :: rest)).map fun read => (read.1.toFloat, read.2) := by
      simp only [readFloat, skipBlanks_cons blank]
      split
      next => simp_all
      next => simp [digit]
    rw [run, scalar_of_isDigit digit, toOption_map, toOption_map]
    cases (scanNumber false (c :: rest)).toOption <;> rfl
  rcases h with h | rfl | rfl
  · exact absurd h digit
  · have opened : skipBlanks ('-' :: rest) = '-' :: rest := skipBlanks_cons (by decide) rest
    simp only [readFloat, opened, scalar, toOption_map]
    cases (scanNumber true rest).toOption <;> rfl
  -- The word null stands where a number was not finite. It is read as a value, but as no number.
  · have opened : skipBlanks ('n' :: rest) = 'n' :: rest := skipBlanks_cons (by decide) rest
    have refused : (readFloat ('n' :: rest)).toOption = none := by
      have run : readFloat ('n' :: rest) = unexpected ('n' :: rest) := by
        simp only [readFloat, opened]
        rfl
      have inside : (unexpected ('n' :: rest) : Except Fault (Float × List Char)) =
          scalar ('n' :: rest) >>= fun _ => .error (.mismatch []) := by
        simp only [unexpected, opened]
        rfl
      rw [run, inside, toOption_bind]
      cases (scalar ('n' :: rest)).toOption <;> rfl
    rw [refused, scalar]
    cases scanWord "ull".toList rest <;> rfl

theorem reads_readFloat (number : JsonNumber) :
    Reads readFloat number.text.toList (number.reread.bind asFloat) := by
  intro rest follows
  have read := number.numeric_text.uniform.reads rest follows
  obtain ⟨c, others, spelled, starts⟩ := number.numeric_text.starts
  rw [spelled, List.cons_append] at read
  rw [spelled, List.cons_append, toOption_readFloat starts, read, JsonNumber.reread, spelled]
  cases (scalar (c :: others)).toOption <;> rfl

theorem toOption_readItem {index : Nat} {inside : List Char}
    (next : nextItem (index = 0) text = .ok (.item inside)) :
    (readItem index reader text).toOption = (reader inside).toOption := by
  have run : readItem index reader text = reader.under (.item index) inside := by
    rw [readItem, next]
    rfl
  rw [run, Reader.under, toOption_mapError]

end Readers

/-- Two numbers between brackets are read one after the other. -/
theorem reads_readPair (first second : JsonNumber) :
    Reads readPair (Json.array [.number first, .number second]).chars
      ((first.reread.bind asFloat).bind fun a => (second.reread.bind asFloat).map (a, ·)) := by
  intro rest follows
  let later := ',' :: (Json.number second).chars ++ ']' :: rest
  have chars : (Json.array [.number first, .number second]).chars ++ rest =
      '[' :: ((Json.number first).chars ++ later) := by
    simp [chars_array, List.intercalate, later]
  have opened : skipBlanks ('[' :: ((Json.number first).chars ++ later)) =
      '[' :: ((Json.number first).chars ++ later) := skipBlanks_cons (by decide) _
  have readFirst : (readItem 0 readFloat ((Json.number first).chars ++ later)).toOption =
      (first.reread.bind asFloat).map (·, later) := by
    have next : nextItem (decide (0 = 0)) ((Json.number first).chars ++ later) =
        .ok (.item ((Json.number first).chars ++ later)) :=
      nextItem_first ((starts_chars _).append later)
    rw [toOption_readItem next]
    refine reads_readFloat first later ?_
    rintro _ ⟨⟩
    exact .inl rfl
  have readSecond : (readItem 1 readFloat later).toOption =
      (second.reread.bind asFloat).map (·, ']' :: rest) := by
    have next : nextItem (decide (1 = 0)) later =
        .ok (.item ((Json.number second).chars ++ ']' :: rest)) :=
      nextItem_later ((starts_chars _).append (']' :: rest))
    rw [toOption_readItem next]
    refine reads_readFloat second (']' :: rest) ?_
    rintro _ ⟨⟩
    exact .inr (.inl rfl)
  have closed : closeArray (']' :: rest) = .ok rest := rfl
  have run : readPair ('[' :: ((Json.number first).chars ++ later)) =
      readItem 0 readFloat ((Json.number first).chars ++ later) >>= fun a =>
        readItem 1 readFloat a.2 >>= fun b =>
          closeArray b.2 >>= fun rest => .ok ((a.1, b.1), rest) := by
    rw [readPair, opened]
    rfl
  rw [chars, run, toOption_bind, readFirst]
  cases first.reread.bind asFloat with
  | none => rfl
  | some a =>
    simp only [Option.map_some, Option.bind_some, toOption_bind, readSecond]
    cases second.reread.bind asFloat with
    | none => rfl
    | some b => simp [closed]

/-- The items of an array are read one by one. -/
theorem reads_readArray {β γ : Type} {item : Reader β} {toJson : γ → Json} {read : γ → Option β}
    {xs : List γ} (h : ∀ x ∈ xs, Reads item (toJson x).chars (read x)) :
    Reads (readArray item) (Json.array (xs.map toJson)).chars (xs.mapM read) := by
  intro rest follows
  let write (x : γ) := (toJson x).chars
  let inside := [','].intercalate (xs.map write) ++ ']' :: rest
  have chars : (Json.array (xs.map toJson)).chars ++ rest = '[' :: inside := by
    simp [chars_array, inside, write, Function.comp_def]
  have opened : skipBlanks ('[' :: inside) = '[' :: inside := skipBlanks_cons (by decide) inside
  have enough := length_items_lt (fun x (_ : x ∈ xs) => starts_chars (toJson x)) (']' :: rest)
  rw [chars, readArray, opened]
  exact toOption_items (fun x _ => starts_chars (toJson x))
    (fun x hx index => (h x hx).under (.item index)) rest enough

end Json

namespace Json

/-- A reader that takes in all the members of an object before it decides what they stand for. -/
theorem reads_object {β σ : Type} {reader : Reader β} {member : String → σ → Reader σ}
    {step : σ → String × Json → Option σ} {finish : σ → Option β} {known : σ}
    (run : ∀ inside, (reader ('{' :: inside)).toOption =
      (members member (inside.length + 1) true known inside).toOption.bind fun read =>
        (finish read.1).map (·, read.2))
    {entries : List (String × Json)} (reads : ∀ entry ∈ entries, ReadsMember member step entry) :
    Reads reader (Json.object entries).chars ((entries.foldlM step known).bind finish) := by
  intro rest follows
  let inside := [','].intercalate (entries.map memberChars) ++ '}' :: rest
  have chars : (Json.object entries).chars ++ rest = '{' :: inside := by
    simp [chars_object, inside]
  have taken := toOption_members reads rest (length_members_lt entries ('}' :: rest)) known
  rw [chars, run, taken]
  cases entries.foldlM step known <;> rfl

theorem within_interval (depth : Nat) (range : Interval) : Within (depth + 1) range.toJson := by
  refine .array ?_
  simp only [List.forall_mem_cons]
  exact ⟨.number _ _, .number _ _, nofun⟩

end Json

namespace Element

open Json

/-- A member that is kept as it is, and holds no more than an array of numbers. -/
def Plain (depth : Nat) (entry : String × Json) : Prop :=
  entry.1 ≠ "type" ∧ Within (depth + 1) entry.2

theorem plain_members (element : Element) (depth : Nat) :
    ∀ entry ∈ element.members, Plain depth entry := by
  have string (name value : String) (other : name ≠ "type") :
      Plain depth (name, .string value) := ⟨other, .string _ _⟩
  have number (name : String) (value : JsonNumber) (other : name ≠ "type") :
      Plain depth (name, .number value) := ⟨other, .number _ _⟩
  have common : ∀ entry ∈ element.appearance.members, Plain depth entry := by
    simp only [Appearance.members, List.forall_mem_append, List.forall_mem_cons]
    refine ⟨⟨⟨⟨?_, ?_, List.forall_mem_nil _⟩, forall_optional ?_⟩, ?_, List.forall_mem_nil _⟩,
      forall_optional ?_⟩
    · exact string _ _ (by decide)
    · exact string _ _ (by decide)
    · exact fun _ _ => number _ _ (by decide)
    · exact string _ _ (by decide)
    · exact fun _ _ => string _ _ (by decide)
  have expressions : ∀ entry ∈ element.shape.expressionMembers, Plain depth entry := by
    unfold Shape.expressionMembers
    cases element.shape <;>
      simp [Shape.expressions, Segment.expressions, string]
  have others : ∀ entry ∈ element.shape.otherMembers, Plain depth entry := by
    cases element.shape with
    | function | line | vector | vLine | hLine => exact List.forall_mem_nil _
    | point | area => exact forall_optional fun _ _ => number _ _ (by decide)
    | text =>
      exact List.forall_mem_cons.mpr
        ⟨string _ _ (by decide), forall_optional fun _ _ => number _ _ (by decide)⟩
    | parametric curve =>
      simp only [Shape.otherMembers, List.forall_mem_append]
      refine ⟨⟨forall_optional ?_, forall_optional ?_⟩, forall_optional ?_⟩
      · exact fun range _ => ⟨by simp, within_interval depth range⟩
      · exact fun _ _ => number _ _ (by decide)
      · exact fun _ _ => string _ _ (by decide)
  exact List.forall_mem_append.mpr ⟨List.forall_mem_append.mpr ⟨common, expressions⟩, others⟩

/-- What a member adds to what is known of an element. -/
def keep (known : Option String × Members) (entry : String × Json) :
    Option (Option String × Members) :=
  if entry.1 = "type" then
    match known.1, entry.2 with
    | none, .string kind => if Shape.kinds.contains kind then some (some kind, known.2) else none
    | _, _ => none
  else (keepReread known.2 entry).map (known.1, ·)

theorem readsMember_kind (kind : String) :
    ReadsMember readMember keep ("type", .string kind) := by
  intro known rest follows
  have read := (reads_readString kind) rest follows
  have named : readMember "type" known (':' :: (quote kind).toList ++ rest) =
      if known.1.isSome then .error (.mismatch [])
      else readKind.under (.member "type") ((quote kind).toList ++ rest) >>= fun read =>
        .ok ((some read.1, known.2), read.2) := by
    rw [readMember, if_pos rfl, List.cons_append, colon_cons]
    cases known.1 with
    | some _ => rfl
    | none => simp only [bind, Except.bind, Option.isSome_none, Bool.false_eq_true, if_false]
  have chars : (Json.string kind).chars = (quote kind).toList := rfl
  have run : readKind ((quote kind).toList ++ rest) =
      readString ((quote kind).toList ++ rest) >>= fun read =>
        if Shape.kinds.contains read.1 then .ok (read.1, read.2) else .error (.mismatch []) := rfl
  rw [chars, named, keep, if_pos rfl]
  cases known.1 with
  | some _ => rfl
  | none =>
    rw [Option.isSome_none, if_neg Bool.false_ne_true]
    simp only [toOption_bind, Reader.under, toOption_mapError, run, read,
      Option.map_some, Option.bind_some]
    by_cases h : Shape.kinds.contains kind = true
    · simp only [if_pos h]
      rfl
    · simp only [if_neg h]
      rfl

theorem readsMember_kept {entry : String × Json} (other : entry.1 ≠ "type")
    (h : Within (maxNested - 3) entry.2) : ReadsMember readMember keep entry := by
  intro known rest follows
  have read := readsMember_keep (reads_value h) known.2 rest follows
  have run : readMember entry.1 known (':' :: entry.2.chars ++ rest) =
      keepMember readValue entry.1 known.2 (':' :: entry.2.chars ++ rest) >>= fun read =>
        .ok ((known.1, read.1), read.2) := by
    rw [readMember, if_neg other]
  rw [run, toOption_bind, readValue, read, keep, if_neg other]
  cases keepReread known.2 entry <;> rfl

theorem foldlM_keep {entries : Members} (other : ∀ entry ∈ entries, entry.1 ≠ "type")
    (kind : Option String) (kept : Members) :
    entries.foldlM keep (kind, kept) =
      (rereadMembers entries).map fun entries => (kind, kept ++ entries) := by
  have kept_eq : entries.foldlM keep (kind, kept) =
      (entries.foldlM keepReread kept).map (kind, ·) := by
    induction entries generalizing kept with
    | nil => rfl
    | cons entry entries ih =>
      obtain ⟨otherFirst, other⟩ := List.forall_mem_cons.mp other
      rw [List.foldlM_cons, List.foldlM_cons, keep, if_neg otherFirst]
      cases keepReread kept entry with
      | none => rfl
      | some kept => exact ih other kept
  rw [kept_eq, foldlM_keepReread, Option.map_map]
  rfl

theorem kinds_kind (shape : Shape) : Shape.kinds.contains shape.kind = true := by
  cases shape <;> rfl

/-- The element that all of its members stand for. -/
def finish? (known : Option String × Members) : Option Element :=
  known.1.bind fun kind => ofMembers? kind known.2

theorem toOption_read_object (inside : List Char) : (read ('{' :: inside)).toOption =
    (Json.members readMember (inside.length + 1) true (none, []) inside).toOption.bind fun read =>
      (finish? read.1).map (·, read.2) := by
  have opened : skipBlanks ('{' :: inside) = '{' :: inside := skipBlanks_cons (by decide) inside
  rw [read, opened]
  simp only [toOption_bind]
  congr
  funext ⟨⟨kind, members⟩, rest⟩
  simp only [finish?]
  cases kind.bind fun kind => ofMembers? kind members <;> rfl

theorem finish?_keep {element : Element} (counted : element.shape.Counted) :
    let entries := ("type", .string element.shape.kind) :: element.members
    (entries.foldlM keep (none, [])).bind finish? = element.reread := by
  have first : keep (none, []) ("type", .string element.shape.kind) =
      some (some element.shape.kind, []) := by
    simp only [keep, kinds_kind]
    rfl
  -- The kind is written first and kept apart, so that all that follows it is kept as it is.
  have others := foldlM_keep (fun entry he => (element.plain_members 0 entry he).1)
    (some element.shape.kind) []
  simp only [List.foldlM_cons, first, Option.bind_eq_bind, Option.bind_some, others]
  rw [← ofMembers?_reread counted]
  cases rereadMembers element.members <;> rfl

/-- An element is read back where it is written. -/
theorem reads_read {element : Element} (counted : element.shape.Counted) :
    Reads read element.toJson.chars element.reread := by
  have plain := element.plain_members (maxNested - 4)
  have reads := reads_object toOption_read_object
    (List.forall_mem_cons.mpr ⟨readsMember_kind element.shape.kind, fun entry he =>
      readsMember_kept (plain entry he).1 (plain entry he).2⟩)
  rw [finish?_keep counted] at reads
  exact reads

end Element

namespace Configuration

open Json

/-- The configuration that is read where a configuration was written. -/
def reread (configuration : Configuration) : Option Configuration := do
  let xDomain ← configuration.xDomain.reread
  let yDomain ← configuration.yDomain.reread
  let parameterRange ← configuration.parameterRange.reread
  let elements ← configuration.elements.mapM Element.reread
  some ⟨xDomain, yDomain, parameterRange, configuration.parameterLabel, elements⟩

theorem reads_readInterval (range : Interval) :
    Reads readInterval range.toJson.chars range.reread := by
  intro rest follows
  have read := reads_readPair (.real range.min) (.real range.max) rest follows
  have chars : range.toJson.chars =
      (Json.array [.number (.real range.min), .number (.real range.max)]).chars := rfl
  rw [readInterval, toOption_map, chars, read, Interval.reread, rereadFloat, rereadFloat]
  cases (JsonNumber.real range.min).reread.bind asFloat with
  | none => rfl
  | some min => cases (JsonNumber.real range.max).reread.bind asFloat <;> rfl

/-- What is read for a member that must not have been there before. -/
def once {β : Type} (before : Option β) (value : Option β) : Option β :=
  if before.isSome then none else value

theorem reads_readOnce {β : Type} {reader : Reader β} {text : List Char} {outcome : Option β}
    (h : Reads reader text outcome) (name : String) (before : Option β) :
    Reads (Draft.readOnce name before reader) (':' :: text) (once before outcome) := by
  intro rest follows
  cases before with
  | some _ => rfl
  | none =>
    have run : Draft.readOnce name none reader (':' :: text ++ rest) =
        reader.under (.member name) (text ++ rest) := by
      rw [Draft.readOnce, List.cons_append, colon_cons]
      rfl
    rw [run, h.under (.member name) rest follows]
    rfl

/-- What the member of a name adds to a draft if it is read where it was written. -/
def draftOf (configuration : Configuration) (draft : Draft) (entry : String × Json) :
    Option Draft :=
  match entry.1 with
  | "xDomain" =>
    (once draft.xDomain configuration.xDomain.reread).map fun value =>
      { draft with xDomain := some value }
  | "yDomain" =>
    (once draft.yDomain configuration.yDomain.reread).map fun value =>
      { draft with yDomain := some value }
  | "paramRange" =>
    (once draft.parameterRange configuration.parameterRange.reread).map fun value =>
      { draft with parameterRange := some value }
  | "paramLabel" =>
    (once draft.parameterLabel (some configuration.parameterLabel)).map fun value =>
      { draft with parameterLabel := some value }
  | "elements" =>
    (once draft.elements (configuration.elements.mapM Element.reread)).map fun value =>
      { draft with elements := some value }
  | _ => none

def members (configuration : Configuration) : Members :=
  [("xDomain", configuration.xDomain.toJson),
    ("yDomain", configuration.yDomain.toJson),
    ("paramRange", configuration.parameterRange.toJson),
    ("paramLabel", .string configuration.parameterLabel),
    ("elements", .array (configuration.elements.map Element.toJson))]

theorem readsMember_draft {configuration : Configuration}
    (counted : ∀ element ∈ configuration.elements, element.shape.Counted) :
    ∀ entry ∈ configuration.members, ReadsMember Draft.readMember configuration.draftOf entry := by
  simp only [members, List.forall_mem_cons]
  refine ⟨fun draft => ?_, fun draft => ?_, fun draft => ?_, fun draft => ?_, fun draft => ?_,
    nofun⟩
  · exact (reads_readOnce (reads_readInterval _) "xDomain" draft.xDomain).map fun value =>
      { draft with xDomain := some value }
  · exact (reads_readOnce (reads_readInterval _) "yDomain" draft.yDomain).map fun value =>
      { draft with yDomain := some value }
  · exact (reads_readOnce (reads_readInterval _) "paramRange" draft.parameterRange).map
      fun value => { draft with parameterRange := some value }
  · exact (reads_readOnce (reads_readString _) "paramLabel" draft.parameterLabel).map
      fun value => { draft with parameterLabel := some value }
  · have elements := reads_readArray fun element he => Element.reads_read (counted element he)
    exact (reads_readOnce elements "elements" draft.elements).map fun value =>
      { draft with elements := some value }

theorem complete?_draftOf (configuration : Configuration) :
    (configuration.members.foldlM configuration.draftOf Draft.empty).bind Draft.complete? =
      configuration.reread := by
  simp only [members, List.foldlM_cons, List.foldlM_nil, draftOf, Draft.empty, once, reread]
  cases configuration.xDomain.reread with
  | none => rfl
  | some xDomain =>
    cases configuration.yDomain.reread with
    | none => rfl
    | some yDomain =>
      cases configuration.parameterRange.reread with
      | none => rfl
      | some parameterRange => cases configuration.elements.mapM Element.reread <;> rfl

theorem toOption_read_object (inside : List Char) : (read ('{' :: inside)).toOption =
    (Json.members Draft.readMember (inside.length + 1) true Draft.empty inside).toOption.bind
      fun read => read.1.complete?.map (·, read.2) := by
  have opened : skipBlanks ('{' :: inside) = '{' :: inside := skipBlanks_cons (by decide) inside
  rw [read, opened]
  simp only [toOption_bind]
  congr
  funext ⟨draft, rest⟩
  simp only
  cases draft.complete? <;> rfl

/-- A configuration is read back where it is written. -/
theorem reads_read {configuration : Configuration}
    (counted : ∀ element ∈ configuration.elements, element.shape.Counted) :
    Reads read configuration.toJson.chars configuration.reread := by
  have reads := reads_object toOption_read_object (readsMember_draft counted)
  rw [complete?_draftOf] at reads
  exact reads

/-- What is loaded from the text of a configuration. -/
theorem toOption_load_save {configuration : Configuration}
    (counted : ∀ element ∈ configuration.elements, element.shape.Counted) :
    (load configuration.save).toOption = configuration.reread := by
  have read := reads_read counted [] nofun
  rw [List.append_nil] at read
  have chars : configuration.save.toList = configuration.toJson.chars := rfl
  rw [load, chars]
  cases h : Configuration.read configuration.toJson.chars with
  | error fault =>
    rw [h] at read
    cases hr : configuration.reread with
    | none => rfl
    | some again => simp [hr] at read
  | ok loaded =>
    rw [h] at read
    cases hr : configuration.reread with
    | none => simp [hr] at read
    | some again =>
      simp only [hr, toOption_ok, Option.map_some, Option.some.injEq] at read
      subst read
      rfl

end Configuration

end LessonPlot

import LessonPlot.Proofs.Configuration.Decoding

namespace LessonPlot

namespace Json

section Preserved

variable {β σ : Type}

/-- What holds of every item that is read holds of all the items of an array. -/
theorem items_forall {item : Nat → Reader β} {P : β → Prop}
    (h : ∀ {index text value rest}, item index text = .ok (value, rest) → P value)
    {fuel index : Nat} {text rest : List Char} {values : List β}
    (run : items item fuel index text = .ok (values, rest)) : ∀ value ∈ values, P value := by
  induction fuel generalizing index text values rest with
  | zero => cases run
  | succ fuel ih =>
    rw [items] at run
    obtain ⟨next, -, run⟩ := bind_eq_ok_iff.mp run
    cases next with
    | closed after =>
      cases run
      exact List.forall_mem_nil _
    | item inside =>
      obtain ⟨⟨value, after⟩, first, run⟩ := bind_eq_ok_iff.mp run
      obtain ⟨⟨others, last⟩, later, run⟩ := bind_eq_ok_iff.mp run
      cases run
      exact List.forall_mem_cons.mpr ⟨h first, ih later⟩

/-- What every member preserves holds after all the members of an object. -/
theorem members_preserve {member : String → σ → Reader σ} {P : σ → Prop}
    (h : ∀ {name known text known' rest}, member name known text = .ok (known', rest) →
      P known → P known')
    {fuel : Nat} {first : Bool} {known known' : σ} {text rest : List Char}
    (run : members member fuel first known text = .ok (known', rest)) (before : P known) :
    P known' := by
  induction fuel generalizing first known text with
  | zero => cases run
  | succ fuel ih =>
    rw [members] at run
    obtain ⟨next, -, run⟩ := bind_eq_ok_iff.mp run
    cases next with
    | closed after =>
      cases run
      exact before
    | item inside =>
      obtain ⟨⟨name, after⟩, -, run⟩ := bind_eq_ok_iff.mp run
      obtain ⟨⟨known, after⟩, step, run⟩ := bind_eq_ok_iff.mp run
      exact ih run (h step before)

end Preserved

/-- A whole number that a document stands for has 64 bits. -/
def Counted : Json → Prop
  | .number (.natural value) => value < Nat.pow 2 64
  | _ => True

theorem absorb_lt {significand : Nat} (lt : significand < Nat.pow 2 64) (digits : List Char) :
    (absorb significand digits).1 < Nat.pow 2 64 := by
  induction digits generalizing significand with
  | nil => exact lt
  | cons c digits ih =>
    rw [absorb]
    by_cases fits : 10 * significand + Numeral.digitValue c < Nat.pow 2 64
    · rw [if_pos fits]
      exact ih fits
    · rw [if_neg fits]
      exact lt

theorem realNumber_counted {negative : Bool} {significand : Nat} {exponent : Int}
    {text rest : List Char} {number : JsonNumber}
    (run : realNumber negative significand exponent text = .ok (number, rest)) :
    (Json.number number).Counted := by
  unfold realNumber at run
  split at run
  · cases run
    trivial
  · cases run

theorem exponentPart_counted {negative : Bool} {significand : Nat} {exponent : Int}
    {text rest : List Char} {number : JsonNumber}
    (run : exponentPart negative significand exponent text = .ok (number, rest)) :
    (Json.number number).Counted := by
  unfold exponentPart at run
  split at run
  next => exact realNumber_counted run
  next mark after =>
    split at run
    · simp only at run
      split at run
      · cases run
      split at run
      · exact realNumber_counted run
      split at run
      · cases run
      · exact realNumber_counted run
    · exact realNumber_counted run

theorem wholeNumber_counted (negative : Bool) {significand : Nat}
    (lt : significand < Nat.pow 2 64) :
    (Json.number (wholeNumber negative significand)).Counted := by
  unfold wholeNumber
  split
  · exact lt
  · split <;> trivial

theorem scanNumber_counted {negative : Bool} {text rest : List Char} {number : JsonNumber}
    (run : scanNumber negative text = .ok (number, rest)) : (Json.number number).Counted := by
  have lt := absorb_lt (show 0 < Nat.pow 2 64 by decide) (text.takeWhile Char.isDigit)
  simp only [scanNumber] at run
  split at run
  · cases run
  split at run
  · cases run
  split at run
  · split at run
    · cases run
    · exact exponentPart_counted run
  · exact exponentPart_counted run
  · exact exponentPart_counted run
  · split at run
    · cases run
      exact wholeNumber_counted negative lt
    · exact realNumber_counted run

theorem scalar_counted {text rest : List Char} {json : Json}
    (run : scalar text = .ok (json, rest)) : json.Counted := by
  unfold scalar at run
  split at run
  · cases run
  · obtain ⟨after, -, run⟩ := bind_eq_ok_iff.mp run
    cases run
    trivial
  · obtain ⟨after, -, run⟩ := bind_eq_ok_iff.mp run
    cases run
    trivial
  · obtain ⟨after, -, run⟩ := bind_eq_ok_iff.mp run
    cases run
    trivial
  · obtain ⟨value, -, result⟩ := map_eq_ok_iff.mp run
    cases result
    trivial
  · obtain ⟨number, scanned, result⟩ := map_eq_ok_iff.mp run
    cases result
    exact scanNumber_counted scanned
  · split at run
    · obtain ⟨number, scanned, result⟩ := map_eq_ok_iff.mp run
      cases result
      exact scanNumber_counted scanned
    · cases run

/-- Where a value is read that is a whole number, it has 64 bits. -/
theorem valueWithin_counted {depth : Nat} {text rest : List Char} {json : Json}
    (run : valueWithin depth text = .ok (json, rest)) : json.Counted := by
  -- An array or an object is no number itself, so that no induction on the depth is needed.
  unfold valueWithin at run
  split at run
  · cases depth with
    | zero => cases run
    | succ depth =>
      obtain ⟨values, -, result⟩ := map_eq_ok_iff.mp run
      cases result
      trivial
  · cases depth with
    | zero => cases run
    | succ depth =>
      obtain ⟨kept, -, result⟩ := map_eq_ok_iff.mp run
      cases result
      trivial
  · exact scalar_counted run

theorem unexpected_ne_ok {β : Type} (text : List Char) (value : β × List Char) :
    (unexpected text : Except Fault (β × List Char)) ≠ .ok value := by
  intro run
  unfold unexpected at run
  split at run
  · cases run
  · cases run
  · obtain ⟨read, -, run⟩ := bind_eq_ok_iff.mp run
    cases run

end Json

namespace Shape

open Json

theorem mem_of_single? {members : Members} {name : String} {json : Json}
    (h : members.single? name = some (some json)) : (name, json) ∈ members := by
  unfold Members.single? at h
  split at h
  · cases h
  next member single =>
    have found : member ∈ members.filter (fun member => member.1 = name) := single ▸ .head _
    obtain ⟨mem, same⟩ := List.mem_filter.mp found
    cases h
    cases of_decide_eq_true same
    exact mem
  · cases h

theorem counted_of_optional {members : Members} {name : String}
    (counted : ∀ entry ∈ members, entry.2.Counted) {steps : Option Nat}
    (h : members.optional name asCount = some steps) :
    ∀ count ∈ steps, count < Nat.pow 2 64 := by
  obtain ⟨json, single, h⟩ := Option.bind_eq_some_iff.mp h
  split at h
  · cases h
    nofun
  · cases h
    nofun
  next json _ =>
    obtain ⟨count, read, rfl⟩ := Option.map_eq_some_iff.mp h
    have bounded := counted _ (mem_of_single? single)
    unfold asCount at read
    split at read
    · cases read
      rintro _ ⟨⟩
      exact bounded
    · cases read

theorem counted_of_ofMembers? {kind : String} {members : Members}
    (counted : ∀ entry ∈ members, entry.2.Counted) {shape : Shape}
    (h : ofMembers? kind members = some shape) : shape.Counted := by
  unfold ofMembers? at h
  split at h
  next =>
    obtain ⟨expression, -, rfl⟩ := Option.map_eq_some_iff.mp h
    trivial
  next =>
    obtain ⟨curve, read, rfl⟩ := Option.map_eq_some_iff.mp h
    obtain ⟨x, -, read⟩ := Option.bind_eq_some_iff.mp read
    obtain ⟨y, -, read⟩ := Option.bind_eq_some_iff.mp read
    obtain ⟨range, -, read⟩ := Option.bind_eq_some_iff.mp read
    obtain ⟨steps, count, read⟩ := Option.bind_eq_some_iff.mp read
    obtain ⟨variableName, -, read⟩ := Option.bind_eq_some_iff.mp read
    cases read
    exact counted_of_optional counted count
  next =>
    obtain ⟨x, -, h⟩ := Option.bind_eq_some_iff.mp h
    obtain ⟨y, -, h⟩ := Option.bind_eq_some_iff.mp h
    obtain ⟨radius, -, h⟩ := Option.bind_eq_some_iff.mp h
    cases h
    trivial
  next =>
    obtain ⟨ends, -, rfl⟩ := Option.map_eq_some_iff.mp h
    trivial
  next =>
    obtain ⟨ends, -, rfl⟩ := Option.map_eq_some_iff.mp h
    trivial
  next =>
    obtain ⟨x, -, rfl⟩ := Option.map_eq_some_iff.mp h
    trivial
  next =>
    obtain ⟨y, -, rfl⟩ := Option.map_eq_some_iff.mp h
    trivial
  next =>
    obtain ⟨y1, -, h⟩ := Option.bind_eq_some_iff.mp h
    obtain ⟨y2, -, h⟩ := Option.bind_eq_some_iff.mp h
    obtain ⟨opacity, -, h⟩ := Option.bind_eq_some_iff.mp h
    cases h
    trivial
  next =>
    obtain ⟨x, -, h⟩ := Option.bind_eq_some_iff.mp h
    obtain ⟨y, -, h⟩ := Option.bind_eq_some_iff.mp h
    obtain ⟨content, -, h⟩ := Option.bind_eq_some_iff.mp h
    obtain ⟨fontSize, -, h⟩ := Option.bind_eq_some_iff.mp h
    cases h
    trivial
  next => cases h

end Shape

namespace Element

open Json

theorem readMember_counted {name : String} {known known' : Option String × Members}
    {text rest : List Char} (run : readMember name known text = .ok (known', rest))
    (before : ∀ entry ∈ known.2, entry.2.Counted) : ∀ entry ∈ known'.2, entry.2.Counted := by
  unfold readMember at run
  split at run
  · split at run
    · cases run
    · obtain ⟨after, -, run⟩ := bind_eq_ok_iff.mp run
      obtain ⟨kind, -, run⟩ := bind_eq_ok_iff.mp run
      cases run
      exact before
  · obtain ⟨kept, keeping, result⟩ := bind_eq_ok_iff.mp run
    obtain ⟨after, -, keeping⟩ := bind_eq_ok_iff.mp keeping
    obtain ⟨value, read, keeping⟩ := bind_eq_ok_iff.mp keeping
    cases keeping
    cases result
    refine List.forall_mem_append.mpr ⟨before, List.forall_mem_cons.mpr ⟨?_, nofun⟩⟩
    exact valueWithin_counted read

theorem read_counted {text rest : List Char} {element : Element}
    (run : read text = .ok (element, rest)) : element.shape.Counted := by
  unfold read at run
  split at run
  next =>
    obtain ⟨⟨⟨kind, members⟩, after⟩, kept, run⟩ := bind_eq_ok_iff.mp run
    have counted := members_preserve
      (P := fun known : Option String × Members => ∀ entry ∈ known.2, entry.2.Counted)
      readMember_counted kept nofun
    simp only at run
    split at run
    next whole =>
      cases run
      obtain ⟨kind, -, built⟩ := Option.bind_eq_some_iff.mp whole
      obtain ⟨appearance, -, built⟩ := Option.bind_eq_some_iff.mp built
      obtain ⟨shape, own, built⟩ := Option.bind_eq_some_iff.mp built
      cases built
      exact Shape.counted_of_ofMembers? counted own
    next => cases run
  next =>
    obtain ⟨kind, -, run⟩ := bind_eq_ok_iff.mp run
    obtain ⟨items, -, run⟩ := bind_eq_ok_iff.mp run
    cases run
  next => exact absurd run (unexpected_ne_ok _ _)

end Element

namespace Configuration

open Json

/-- The elements of a draft all have a number of steps of 64 bits. -/
def Draft.Counted (draft : Draft) : Prop :=
  ∀ elements ∈ draft.elements, ∀ element ∈ elements, element.shape.Counted

theorem readElements_counted {text rest : List Char} {elements : List Element}
    (run : Json.readArray Element.read text = .ok (elements, rest)) :
    ∀ element ∈ elements, element.shape.Counted := by
  unfold Json.readArray at run
  split at run
  next => exact items_forall (fun read => Element.read_counted (mapError_eq_ok_iff.mp read)) run
  next => exact absurd run (unexpected_ne_ok _ _)

theorem Draft.readMember_counted {name : String} {draft draft' : Draft} {text rest : List Char}
    (run : Draft.readMember name draft text = .ok (draft', rest)) (before : draft.Counted) :
    draft'.Counted := by
  unfold Draft.readMember at run
  split at run
  next =>
    obtain ⟨value, -, result⟩ := map_eq_ok_iff.mp run
    cases result
    exact before
  next =>
    obtain ⟨value, -, result⟩ := map_eq_ok_iff.mp run
    cases result
    exact before
  next =>
    obtain ⟨value, -, result⟩ := map_eq_ok_iff.mp run
    cases result
    exact before
  next =>
    obtain ⟨value, -, result⟩ := map_eq_ok_iff.mp run
    cases result
    exact before
  next =>
    obtain ⟨elements, once, result⟩ := map_eq_ok_iff.mp run
    cases result
    unfold Draft.readOnce at once
    split at once
    · cases once
    · obtain ⟨after, -, read⟩ := bind_eq_ok_iff.mp once
      rintro _ ⟨⟩
      exact readElements_counted (mapError_eq_ok_iff.mp read)
  next =>
    obtain ⟨after, -, run⟩ := bind_eq_ok_iff.mp run
    obtain ⟨last, -, run⟩ := bind_eq_ok_iff.mp run
    cases run
    exact before

theorem readArray_counted {text rest : List Char} {configuration : Configuration}
    (run : readArray text = .ok (configuration, rest)) :
    ∀ element ∈ configuration.elements, element.shape.Counted := by
  obtain ⟨xDomain, -, run⟩ := bind_eq_ok_iff.mp run
  obtain ⟨yDomain, -, run⟩ := bind_eq_ok_iff.mp run
  obtain ⟨parameterRange, -, run⟩ := bind_eq_ok_iff.mp run
  obtain ⟨⟨label, next⟩, -, run⟩ := bind_eq_ok_iff.mp run
  cases next with
  | closed after =>
    cases run
    exact List.forall_mem_nil _
  | item inside =>
    obtain ⟨⟨elements, next⟩, read, run⟩ := bind_eq_ok_iff.mp run
    have counted : ∀ element ∈ elements, element.shape.Counted := by
      obtain ⟨start, -, read⟩ := bind_eq_ok_iff.mp read
      cases start with
      | closed after =>
        cases read
        exact List.forall_mem_nil _
      | item inside =>
        obtain ⟨value, item, read⟩ := bind_eq_ok_iff.mp read
        cases read
        exact readElements_counted (mapError_eq_ok_iff.mp item)
    cases next with
    | closed after =>
      cases run
      exact counted
    | item inside =>
      obtain ⟨last, -, run⟩ := bind_eq_ok_iff.mp run
      cases run
      exact counted

theorem read_counted {text rest : List Char} {configuration : Configuration}
    (run : read text = .ok (configuration, rest)) :
    ∀ element ∈ configuration.elements, element.shape.Counted := by
  unfold read at run
  split at run
  next =>
    obtain ⟨⟨draft, after⟩, kept, run⟩ := bind_eq_ok_iff.mp run
    have counted : draft.Counted := members_preserve Draft.readMember_counted kept nofun
    simp only at run
    split at run
    next whole =>
      cases run
      obtain ⟨xDomain, -, whole⟩ := Option.bind_eq_some_iff.mp whole
      obtain ⟨yDomain, -, whole⟩ := Option.bind_eq_some_iff.mp whole
      obtain ⟨parameterRange, -, whole⟩ := Option.bind_eq_some_iff.mp whole
      cases whole
      cases h : draft.elements with
      | none => simp
      | some elements => exact counted elements h
    next => cases run
  next => exact readArray_counted run
  next => exact absurd run (unexpected_ne_ok _ _)

/-- Whatever text a configuration is loaded from, its numbers of steps have 64 bits. -/
theorem load_counted {text : String} {configuration : Configuration}
    (h : load text = .ok configuration) :
    ∀ element ∈ configuration.elements, element.shape.Counted := by
  unfold load at h
  split at h
  next => cases h
  next read =>
    split at h
    · cases h
      exact read_counted read
    · cases h

end Configuration

end LessonPlot

import CMakeSense.Catalog.Parameter
import Mathlib.Data.List.TakeWhile

/-! Parameters and their notation. Which parameters the notation tells apart depends on the name
alone and on the two flags (`Parameter.Legible`): brackets around the name of a mandatory parameter
look like those of an optional one, an ellipsis at its end like that of a variadic one, and of a
variadic parameter the reader keeps the first word, without the digits at its end. These are the
only ways in which a parameter can get lost (`Parameter.parse_render_iff`). -/

namespace CMakeSense.Parameter

/-- A text in brackets. -/
def Bracketed (t : Text) : Prop :=
  t.head? = some Ascii.openBracket ∧ t.getLast? = some Ascii.closeBracket

instance (t : Text) : Decidable (Bracketed t) :=
  inferInstanceAs (Decidable (_ ∧ _))

/-- What the notation of a variadic parameter ends in. -/
abbrev ellipsis : Text := utf8 " ..."

/-- A text that ends in a digit. -/
def EndsInDigit (t : Text) : Prop := ∃ digit ∈ t.getLast?, Ascii.isDigit digit = true

instance (t : Text) : Decidable (EndsInDigit t) :=
  inferInstanceAs (Decidable (∃ digit ∈ t.getLast?, Ascii.isDigit digit = true))

/-- The notation of the parameter shows its name and its flags. -/
inductive Legible : Parameter → Prop where
  | variadic {name : Text} {optional : Bool} (word : Ascii.space ∉ name)
      (ends : ¬EndsInDigit name) : Legible ⟨name, optional, true⟩
  | single {name : Text} {optional : Bool} (finite : ¬ellipsis <:+ name)
      (bare : optional = false → ¬Bracketed name) : Legible ⟨name, optional, false⟩

section Reading

variable {name body : Text} {optional : Bool}

theorem parse_brackets (body : Text) :
    parse (Ascii.openBracket :: body ++ [Ascii.closeBracket]) = parseBody true body := by
  simp [parse, List.getLast?_cons]

theorem optional_parseBody (optional : Bool) (body : Text) :
    (parseBody optional body).optional = optional := by
  unfold parseBody
  split <;> rfl

theorem optional_parse_of_bracketed (h : Bracketed body) : (parse body).optional = true := by
  have brackets : (body.head? = some Ascii.openBracket && body.getLast? = some Ascii.closeBracket) =
      true := by simpa [Bracketed] using h
  rw [parse, if_pos brackets, optional_parseBody]

theorem parse_of_not_bracketed (h : ¬Bracketed body) : parse body = parseBody false body := by
  rw [parse, if_neg]
  simpa [Bracketed] using h

theorem parseBody_of_not_suffix (h : ¬ellipsis <:+ body) :
    parseBody optional body = ⟨body, optional, false⟩ := by
  rw [parseBody, if_neg]
  rwa [List.isSuffixOf_iff_suffix]

/-- The part of a text before the digits at its end. -/
def stem (t : Text) : Text := (t.reverse.dropWhile Ascii.isDigit).reverse

theorem stem_concat_of_isDigit {digit : UInt8} (h : Ascii.isDigit digit = true) (t : Text) :
    stem (t ++ [digit]) = stem t := by
  simp [stem, h]

theorem length_stem_le (t : Text) : (stem t).length ≤ t.length := by
  have within := (List.dropWhile_sublist Ascii.isDigit (l := t.reverse)).length_le
  rwa [List.length_reverse, ← List.length_reverse] at within

theorem stem_eq_self_iff {t : Text} : stem t = t ↔ ¬EndsInDigit t := by
  rcases List.eq_nil_or_concat t with rfl | ⟨front, last, rfl⟩
  · simp [stem, EndsInDigit]
  rw [List.concat_eq_append]
  by_cases digit : Ascii.isDigit last = true
  · -- Without its last digit the text is shorter.
    have shorter : stem (front ++ [last]) ≠ front ++ [last] := by
      intro same
      have within := length_stem_le front
      rw [← stem_concat_of_isDigit digit, same, List.length_append, List.length_singleton] at within
      omega
    simp [shorter, EndsInDigit, digit]
  · simp [stem, EndsInDigit, digit]

theorem takeWhile_append_space (t rest : Text) :
    (t ++ Ascii.space :: rest).takeWhile (· ≠ Ascii.space) = t.takeWhile (· ≠ Ascii.space) := by
  rw [List.takeWhile_append]
  split
  · next whole =>
    rw [List.takeWhile_cons_of_neg (by simp), List.append_nil]
    exact ((List.takeWhile_sublist _).eq_of_length whole).symm
  · rfl

/-- Of the notation of a variadic parameter the reader keeps the first word. -/
theorem parseBody_variadic (name : Text) (optional : Bool) :
    parseBody optional (name ++ utf8 "1 " ++ name ++ utf8 "2 ...") =
      ⟨stem ((name ++ [0x31]).takeWhile (· ≠ Ascii.space)), optional, true⟩ := by
  have ends : ellipsis <:+ name ++ utf8 "1 " ++ name ++ utf8 "2 ..." :=
    ⟨name ++ utf8 "1 " ++ name ++ [0x32], by rw [List.append_assoc]; rfl⟩
  have cut : name ++ utf8 "1 " ++ name ++ utf8 "2 ..." =
      (name ++ [0x31]) ++ Ascii.space :: (name ++ utf8 "2 ...") := by
    simp only [List.append_assoc]
    rfl
  rw [parseBody, if_pos (List.isSuffixOf_iff_suffix.mpr ends), cut, takeWhile_append_space]
  rfl

/-- The first word of the notation is the name, up to its digits, if the name is a word. -/
theorem stem_takeWhile_eq_iff {name : Text} :
    stem ((name ++ [0x31]).takeWhile (· ≠ Ascii.space)) = name ↔
      Ascii.space ∉ name ∧ ¬EndsInDigit name := by
  by_cases word : Ascii.space ∈ name
  · have spaceless : Ascii.space ∉ stem ((name ++ [0x31]).takeWhile (· ≠ Ascii.space)) := by
      intro member
      have kept := (List.dropWhile_sublist _).subset (List.mem_reverse.mp member)
      have other := List.mem_takeWhile_imp (List.mem_reverse.mp kept)
      simp at other
    have lost : stem ((name ++ [0x31]).takeWhile (· ≠ Ascii.space)) ≠ name :=
      fun same => spaceless (same.symm ▸ word)
    exact ⟨fun same => absurd same lost, fun legible => absurd word legible.1⟩
  · have whole : (name ++ [0x31]).takeWhile (· ≠ Ascii.space) = name ++ [0x31] := by
      rw [List.takeWhile_eq_self_iff]
      intro c member
      rcases List.mem_append.mp member with inside | digit
      · simpa using fun same : c = Ascii.space => word (same ▸ inside)
      · cases List.mem_singleton.mp digit
        decide
    rw [whole, stem_concat_of_isDigit (by decide), stem_eq_self_iff]
    simp [word]

theorem parseBody_eq_iff {name : Text} {optional : Bool} :
    parseBody optional name = ⟨name, optional, false⟩ ↔ ¬ellipsis <:+ name := by
  refine ⟨fun same ends => ?_, parseBody_of_not_suffix⟩
  rw [parseBody, if_pos (List.isSuffixOf_iff_suffix.mpr ends)] at same
  cases congrArg Parameter.variadic same

end Reading

/-- Exactly the parameters whose notation shows what they are read back. -/
theorem parse_render_iff (p : Parameter) : parse p.render = p ↔ p.Legible := by
  obtain ⟨name, optional, variadic⟩ := p
  cases variadic with
  | true =>
    have read : parse (render ⟨name, optional, true⟩) =
        parseBody optional (name ++ utf8 "1 " ++ name ++ utf8 "2 ...") := by
      cases optional with
      | true => exact parse_brackets _
      | false =>
        -- The notation ends in a dot.
        refine parse_of_not_bracketed fun brackets => ?_
        have last : (name ++ utf8 "1 " ++ name ++ utf8 "2 ...").getLast? =
            some Ascii.closeBracket := brackets.2
        rw [List.getLast?_append] at last
        cases last
    rw [read, parseBody_variadic]
    constructor
    · intro same
      obtain ⟨word, ends⟩ := stem_takeWhile_eq_iff.mp (congrArg Parameter.name same)
      exact .variadic word ends
    · rintro ⟨word, ends⟩
      rw [stem_takeWhile_eq_iff.mpr ⟨word, ends⟩]
  | false =>
    cases optional with
    | true =>
      have read : parse (render ⟨name, true, false⟩) = parseBody true name := parse_brackets _
      rw [read, parseBody_eq_iff]
      constructor
      · exact fun finite => .single finite nofun
      · rintro ⟨⟩
        assumption
    | false =>
      have plain : render ⟨name, false, false⟩ = name := rfl
      rw [plain]
      by_cases brackets : Bracketed name
      · constructor
        · intro same
          have optional := optional_parse_of_bracketed brackets
          rw [same] at optional
          cases optional
        · rintro ⟨⟩
          next bare => exact absurd brackets (bare rfl)
      · rw [parse_of_not_bracketed brackets, parseBody_eq_iff]
        constructor
        · exact fun finite => .single finite fun _ => brackets
        · rintro ⟨⟩
          assumption

/-- **The notation of a parameter reads back.** A name without spaces that is not in brackets, and
does not end in a digit if the parameter is variadic, comes back with both flags. -/
theorem parse_render (p : Parameter) (word : Ascii.space ∉ p.name) (bare : ¬Bracketed p.name)
    (ends : p.variadic = true → ¬EndsInDigit p.name) : parse p.render = p := by
  rw [parse_render_iff]
  obtain ⟨name, optional, variadic⟩ := p
  cases variadic with
  | true => exact .variadic word (ends rfl)
  | false =>
    refine .single (fun suffix => word ?_) fun _ => bare
    exact suffix.subset (by decide)

/-- A name of digits, dots and a bracket, in the notation with both flags. -/
theorem parse_render_of_odd_name :
    let p : Parameter := ⟨utf8 "[1..2.]x", true, true⟩
    Ascii.space ∉ p.name ∧ ¬Bracketed p.name ∧ ¬EndsInDigit p.name ∧
      p.render = utf8 "[[1..2.]x1 [1..2.]x2 ...]" ∧ parse p.render = p := by
  intro p
  have word : Ascii.space ∉ p.name := by decide
  have bare : ¬Bracketed p.name := by decide
  have ends : ¬EndsInDigit p.name := by decide
  exact ⟨word, bare, ends, by decide, parse_render p word bare fun _ => ends⟩

end CMakeSense.Parameter

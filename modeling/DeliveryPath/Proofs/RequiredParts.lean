import DeliveryPath.Layer.Render

/-!
# Parts that layers cannot do without

A layer is asked first for what it shows, then, if it is of text, for a family and a size of the font, unless nothing
is said about the font at all. What is missing first is the error (`Layer.LacksFirst`); where nothing is, the layer is
written with its style right after the name of the kind (`Layer.Written`).
-/

namespace DeliveryPath

namespace StyleField

/-- A weight or style other than `normal`, a decoration or stroke other than `none`, or a text for any other field. -/
def IsEffective : StyleField → String → Prop
  | weight, text | style, text => text ≠ "normal"
  | decoration, text | stroke, text => text ≠ "none"
  | _, _ => True

theorem isEffective_iff (field : StyleField) (text : String) : field.IsEffective text ↔ some text ≠ field.neutral? := by
  cases field <;> simp [IsEffective, neutral?]

end StyleField

/-- What a layer of the kind is to say at least. -/
def LayerKind.subject : LayerKind → MissingPart
  | image | video | subtitles => .publicId
  | fetch => .url
  | text => .textOrPublicId

namespace Layer

variable {l : Layer}

/-! ## Fields that are given -/

/-- The field is set, and not to the empty text. -/
def Gives (l : Layer) (field : LayerField) (text : String) : Prop := l.value field = some text ∧ text ≠ ""

def Has (l : Layer) (field : LayerField) : Prop := ∃ text, l.Gives field text

theorem given?_eq_some_iff {field : LayerField} {text : String} : l.given? field = some text ↔ l.Gives field text :=
  given_eq_some_iff

theorem given?_eq_none_iff {field : LayerField} : l.given? field = none ↔ ¬l.Has field := by
  simp only [Option.eq_none_iff_forall_ne_some, ne_eq, given?_eq_some_iff, Has, not_exists]

/-- The layer says what to show. -/
def HasSubject (l : Layer) : Prop :=
  match l.kind with
  | .image | .video | .subtitles => l.Has (.asset .publicId)
  | .fetch => l.Has .url
  | .text => l.Has .text ∨ l.Has (.asset .publicId)

theorem publicId?_eq_none_iff : l.publicId? = none ↔ ¬l.Has (.asset .publicId) := by
  rw [publicId?, Option.map_eq_none_iff, given?_eq_none_iff]

theorem url?_eq_none_iff : l.url? = none ↔ ¬l.Has .url := by
  rw [url?, Option.map_eq_none_iff, given?_eq_none_iff]

theorem text?_eq_none_iff : l.text? = none ↔ ¬l.Has .text := by
  rw [text?, Option.map_eq_none_iff, given?_eq_none_iff]

/-! ## Fonts -/

/-- The text is given for the field and changes the font. -/
def Modifies (l : Layer) (field : StyleField) (text : String) : Prop :=
  l.Gives (.style field) text ∧ field.IsEffective text

theorem modifier?_eq_some_iff {field : StyleField} {part : String} :
    l.modifier? field = some part ↔ ∃ text, l.Modifies field text ∧ field.label ++ text = part := by
  simp only [modifier?, Option.map_eq_some_iff, Option.filter_eq_some_iff, given?_eq_some_iff, Modifies,
    StyleField.isEffective_iff, decide_eq_true_eq]

theorem modifier?_eq_none_iff {field : StyleField} : l.modifier? field = none ↔ ∀ text, ¬l.Modifies field text := by
  rw [Option.eq_none_iff_forall_ne_some]
  constructor
  · intro h text htext
    exact h _ (modifier?_eq_some_iff.mpr ⟨text, htext, rfl⟩)
  · intro h part hpart
    obtain ⟨text, htext, -⟩ := modifier?_eq_some_iff.mp hpart
    exact h text htext

/-- What the fields that modify the font add to the style, in the order of the list. -/
inductive Listed (l : Layer) : List StyleField → List String → Prop
  | nil : Listed l [] []
  | modifies {field : StyleField} {text : String} {fields : List StyleField} {parts : List String} :
      l.Modifies field text → Listed l fields parts → Listed l (field :: fields) ((field.label ++ text) :: parts)
  | skips {field : StyleField} {fields : List StyleField} {parts : List String} :
      (∀ text, ¬l.Modifies field text) → Listed l fields parts → Listed l (field :: fields) parts

theorem listed_filterMap : ∀ fields : List StyleField, Listed l fields (fields.filterMap l.modifier?)
  | [] => .nil
  | field :: fields => by
    cases hpart : l.modifier? field with
    | none =>
      rw [List.filterMap_cons_none hpart]
      exact .skips (modifier?_eq_none_iff.mp hpart) (listed_filterMap fields)
    | some part =>
      obtain ⟨text, htext, rfl⟩ := modifier?_eq_some_iff.mp hpart
      rw [List.filterMap_cons_some hpart]
      exact .modifies htext (listed_filterMap fields)

theorem Listed.filterMap_eq {fields : List StyleField} {parts : List String} (h : Listed l fields parts) :
    fields.filterMap l.modifier? = parts := by
  induction h with
  | nil => rfl
  | modifies htext _ ih => rw [List.filterMap_cons_some (modifier?_eq_some_iff.mpr ⟨_, htext, rfl⟩), ih]
  | skips hnone _ ih => rw [List.filterMap_cons_none (modifier?_eq_none_iff.mpr hnone), ih]

theorem listed_modifiers_iff {parts : List String} : l.Listed StyleField.modifiers parts ↔ l.modifiers = parts := by
  constructor
  · exact Listed.filterMap_eq
  · intro h
    rw [← h]
    exact listed_filterMap StyleField.modifiers

def HasModifier (l : Layer) : Prop := ∃ field text, field ≠ .family ∧ field ≠ .size ∧ l.Modifies field text

theorem modifiers_eq_nil_iff : l.modifiers = [] ↔ ¬l.HasModifier := by
  have hmem : ∀ field, field ∈ StyleField.modifiers ↔ field ≠ .family ∧ field ≠ .size := by
    intro field
    cases field <;> decide
  rw [modifiers, List.filterMap_eq_nil_iff]
  simp only [hmem, modifier?_eq_none_iff, HasModifier, not_exists, not_and, and_imp]
  exact ⟨fun h field text hf hs => h field hf hs text, fun h field hf hs text => h field text hf hs⟩

/-- Something is said about the font. -/
def HasStyle (l : Layer) : Prop := l.Has (.style .family) ∨ l.Has (.style .size) ∨ l.HasModifier

/-- The style is complete, or nothing is said about the font. -/
inductive Styled (l : Layer) : Option String → Prop
  | absent : ¬l.HasStyle → Styled l none
  | complete {family size : String} {parts : List String} : l.Gives (.style .family) family →
      l.Gives (.style .size) size →
      Listed l [.weight, .style, .decoration, .alignment, .stroke, .letterSpacing, .lineSpacing, .antialiasing,
        .hinting] parts →
      Styled l (some ("_".intercalate (family :: size :: parts)))

/-- What the style lacks first. -/
inductive StyleLacks (l : Layer) : MissingPart → Prop
  | family : l.HasStyle → ¬l.Has (.style .family) → StyleLacks l .fontFamily
  | size : l.Has (.style .family) → ¬l.Has (.style .size) → StyleLacks l .fontSize

theorem Styled.textStyle_eq {style? : Option String} (h : l.Styled style?) : l.textStyle = .ok style? := by
  cases h with
  | absent hnone =>
    simp only [HasStyle, not_or, ← given?_eq_none_iff, ← modifiers_eq_nil_iff] at hnone
    simp [textStyle, hnone]
  | complete hfamily hsize hparts =>
    rw [← given?_eq_some_iff] at hfamily hsize
    have hmodifiers : l.modifiers = _ := listed_modifiers_iff.mp hparts
    simp [textStyle, hfamily, hsize, hmodifiers]

theorem StyleLacks.textStyle_eq {part : MissingPart} (h : l.StyleLacks part) :
    l.textStyle = .error (.missingPart part) := by
  unfold textStyle
  cases h with
  | family hstyle hfamily =>
    rw [given?_eq_none_iff.mpr hfamily]
    cases hsize : l.given? (.style .size) with
    | some size => rfl
    | none =>
      -- with neither family nor size, it is a modification that asks for them
      have hmodifier : l.HasModifier := (hstyle.resolve_left hfamily).resolve_left (given?_eq_none_iff.mp hsize)
      have hne : l.modifiers ≠ [] := fun hnil => modifiers_eq_nil_iff.mp hnil hmodifier
      simp [hne]
  | size hfamily hsize =>
    obtain ⟨family, hfamily⟩ := hfamily
    rw [given?_eq_some_iff.mpr hfamily, given?_eq_none_iff.mpr hsize]

theorem styled_or_lacks (l : Layer) : (∃ style?, l.Styled style?) ∨ ∃ part, l.StyleLacks part := by
  by_cases hstyle : l.HasStyle
  · by_cases hfamily : l.Has (.style .family)
    · by_cases hsize : l.Has (.style .size)
      · obtain ⟨family, hfamily⟩ := hfamily
        obtain ⟨size, hsize⟩ := hsize
        exact .inl ⟨_, .complete hfamily hsize (listed_modifiers_iff.mpr rfl)⟩
      · exact .inr ⟨_, .size hfamily hsize⟩
    · exact .inr ⟨_, .family hstyle hfamily⟩
  · exact .inl ⟨_, .absent hstyle⟩

theorem exists_styleLacks_iff : (∃ part, l.StyleLacks part) ↔
    l.HasStyle ∧ (¬l.Has (.style .family) ∨ ¬l.Has (.style .size)) := by
  constructor
  · intro h
    obtain ⟨part, hlacks⟩ := h
    cases hlacks with
    | family hstyle hfamily => exact ⟨hstyle, .inl hfamily⟩
    | size hfamily hsize => exact ⟨.inl hfamily, .inr hsize⟩
  · intro h
    obtain ⟨hstyle, hfamily | hsize⟩ := h
    · exact ⟨_, .family hstyle hfamily⟩
    · by_cases hfamily : l.Has (.style .family)
      · exact ⟨_, .size hfamily hsize⟩
      · exact ⟨_, .family hstyle hfamily⟩

/-! ## Whole layers -/

def IsText (l : Layer) : Prop := l.kind = .text ∨ l.kind = .subtitles

/-- What a layer is written as. The style, if any, stands right after the name of the kind. -/
inductive Written (l : Layer) : List String → Prop
  | image {id : String} : l.kind = .image → l.publicId? = some id →
      Written l (l.resourceType?.toList ++ l.deliveryType?.toList ++ [id])
  | video {id : String} : l.kind = .video → l.publicId? = some id →
      Written l ("video" :: l.deliveryType?.toList ++ [id])
  | fetch {url : String} : l.kind = .fetch → l.url? = some url →
      Written l (l.resourceType?.toList ++ ["fetch", url])
  | text {style? : Option String} : l.kind = .text → l.HasSubject → l.Styled style? →
      Written l ("text" :: style?.toList ++ l.publicId?.toList ++ l.text?.toList)
  | subtitles {style? : Option String} {id : String} : l.kind = .subtitles → l.publicId? = some id → l.Styled style? →
      Written l ("subtitles" :: style?.toList ++ [id])

/-- What the layer lacks first. -/
inductive LacksFirst (l : Layer) : MissingPart → Prop
  | subject : ¬l.HasSubject → LacksFirst l l.kind.subject
  | style {part : MissingPart} : l.IsText → l.HasSubject → l.StyleLacks part → LacksFirst l part

theorem exists_publicId? (h : l.HasSubject) (hkind : l.kind.subject = .publicId) : ∃ id, l.publicId? = some id := by
  rw [← Option.ne_none_iff_exists', ne_eq, publicId?_eq_none_iff]
  apply not_not_intro
  unfold HasSubject at h
  cases hl : l.kind with
  | image | video | subtitles =>
    rw [hl] at h
    exact h
  | fetch | text =>
    rw [hl] at hkind
    cases hkind

theorem exists_url? (h : l.HasSubject) (hkind : l.kind = .fetch) : ∃ url, l.url? = some url := by
  rw [HasSubject, hkind] at h
  rw [← Option.ne_none_iff_exists', ne_eq, url?_eq_none_iff]
  exact not_not_intro h

theorem render_of_not_hasSubject (h : ¬l.HasSubject) : l.render = .error (.missingPart l.kind.subject) := by
  unfold HasSubject at h
  cases hkind : l.kind with
  | image | video | subtitles =>
    simp only [hkind, ← publicId?_eq_none_iff] at h
    simp [render, parts, hkind, require, h, LayerKind.subject, bind, Except.bind, Except.map]
  | fetch =>
    simp only [hkind, ← url?_eq_none_iff] at h
    simp [render, parts, hkind, require, h, LayerKind.subject, bind, Except.bind, Except.map]
  | text =>
    simp only [hkind, not_or, ← text?_eq_none_iff, ← publicId?_eq_none_iff] at h
    simp [render, parts, hkind, require, h, LayerKind.subject, bind, Except.bind, Except.map]

theorem render_of_text (hkind : l.kind = .text) (h : l.HasSubject) : l.render = l.textStyle.map fun style? =>
    ":".intercalate ("text" :: style?.toList ++ l.publicId?.toList ++ l.text?.toList) := by
  rw [HasSubject, hkind] at h
  have hsubject : l.publicId?.or l.text? ≠ none := by
    rw [ne_eq, Option.or_eq_none_iff, publicId?_eq_none_iff, text?_eq_none_iff]
    intro hnone
    exact h.elim hnone.2 hnone.1
  obtain ⟨subject, hsubject⟩ := Option.ne_none_iff_exists'.mp hsubject
  simp only [render, parts, hkind, hsubject, require]
  cases l.textStyle <;> simp [bind, Except.bind, Except.map, pure, Except.pure]

theorem render_of_subtitles (hkind : l.kind = .subtitles) {id : String} (hid : l.publicId? = some id) :
    l.render = l.textStyle.map fun style? => ":".intercalate ("subtitles" :: style?.toList ++ [id]) := by
  simp only [render, parts, hkind, hid, require]
  cases l.textStyle <;> simp [bind, Except.bind, Except.map, pure, Except.pure]

theorem Written.render_eq {parts : List String} (h : l.Written parts) : l.render = .ok (":".intercalate parts) := by
  cases h with
  | image hkind hid | video hkind hid =>
    simp [render, Layer.parts, hkind, hid, require, bind, Except.bind, Except.map, pure, Except.pure]
  | fetch hkind hurl =>
    simp [render, Layer.parts, hkind, hurl, require, bind, Except.bind, Except.map, pure, Except.pure]
  | text hkind hsubject hstyled =>
    rw [render_of_text hkind hsubject, hstyled.textStyle_eq]
    rfl
  | subtitles hkind hid hstyled =>
    rw [render_of_subtitles hkind hid, hstyled.textStyle_eq]
    rfl

theorem LacksFirst.render_eq {part : MissingPart} (h : l.LacksFirst part) : l.render = .error (.missingPart part) := by
  cases h with
  | subject hsubject => exact render_of_not_hasSubject hsubject
  | style hkind hsubject hlacks =>
    rcases hkind with hkind | hkind
    · rw [render_of_text hkind hsubject, hlacks.textStyle_eq]
      rfl
    · obtain ⟨id, hid⟩ := exists_publicId? hsubject (by rw [hkind]; rfl)
      rw [render_of_subtitles hkind hid, hlacks.textStyle_eq]
      rfl

/-- A layer that says what to show is written, or it is of text and its style lacks something. -/
theorem written_or_lacks (l : Layer) : (∃ parts, l.Written parts) ∨ ∃ part, l.LacksFirst part := by
  by_cases hsubject : l.HasSubject
  · cases hkind : l.kind with
    | image =>
      obtain ⟨id, hid⟩ := exists_publicId? hsubject (by rw [hkind]; rfl)
      exact .inl ⟨_, .image hkind hid⟩
    | video =>
      obtain ⟨id, hid⟩ := exists_publicId? hsubject (by rw [hkind]; rfl)
      exact .inl ⟨_, .video hkind hid⟩
    | fetch =>
      obtain ⟨url, hurl⟩ := exists_url? hsubject hkind
      exact .inl ⟨_, .fetch hkind hurl⟩
    | text =>
      obtain ⟨style?, hstyled⟩ | ⟨part, hlacks⟩ := styled_or_lacks l
      · exact .inl ⟨_, .text hkind hsubject hstyled⟩
      · exact .inr ⟨part, .style (.inl hkind) hsubject hlacks⟩
    | subtitles =>
      obtain ⟨id, hid⟩ := exists_publicId? hsubject (by rw [hkind]; rfl)
      obtain ⟨style?, hstyled⟩ | ⟨part, hlacks⟩ := styled_or_lacks l
      · exact .inl ⟨_, .subtitles hkind hid hstyled⟩
      · exact .inr ⟨part, .style (.inr hkind) hsubject hlacks⟩
  · exact .inr ⟨_, .subject hsubject⟩

theorem render_eq_ok_iff {path : String} :
    l.render = .ok path ↔ ∃ parts, l.Written parts ∧ path = ":".intercalate parts := by
  constructor
  · intro h
    obtain ⟨parts, hwritten⟩ | ⟨part, hlacks⟩ := written_or_lacks l
    · rw [hwritten.render_eq] at h
      exact ⟨parts, hwritten, (Except.ok.inj h).symm⟩
    · rw [hlacks.render_eq] at h
      cases h
  · intro h
    obtain ⟨parts, hwritten, rfl⟩ := h
    exact hwritten.render_eq

theorem render_eq_error_iff {e : Error} : l.render = .error e ↔ ∃ part, l.LacksFirst part ∧ e = .missingPart part := by
  constructor
  · intro h
    obtain ⟨parts, hwritten⟩ | ⟨part, hlacks⟩ := written_or_lacks l
    · rw [hwritten.render_eq] at h
      cases h
    · rw [hlacks.render_eq] at h
      exact ⟨part, hlacks, (Except.error.inj h).symm⟩
  · intro h
    obtain ⟨part, hlacks, rfl⟩ := h
    exact hlacks.render_eq

theorem exists_lacksFirst_iff : (∃ part, l.LacksFirst part) ↔
    ¬l.HasSubject ∨ l.IsText ∧ l.HasStyle ∧ (¬l.Has (.style .family) ∨ ¬l.Has (.style .size)) := by
  rw [← exists_styleLacks_iff]
  constructor
  · intro h
    obtain ⟨part, hlacks⟩ := h
    cases hlacks with
    | subject hsubject => exact .inl hsubject
    | style hkind _ hlacks => exact .inr ⟨hkind, part, hlacks⟩
  · intro h
    by_cases hsubject : l.HasSubject
    · obtain ⟨hkind, part, hlacks⟩ := h.resolve_left (not_not_intro hsubject)
      exact ⟨part, .style hkind hsubject hlacks⟩
    · exact ⟨_, .subject hsubject⟩

/-- A layer fails for want of what it shows, or as text of an incomplete style, and the error says which part is
missing first. Otherwise it is written with whatever it has of its style. -/
theorem render_outcome (l : Layer) :
    ((∃ e, l.render = .error e) ↔
      ¬l.HasSubject ∨ l.IsText ∧ l.HasStyle ∧ (¬l.Has (.style .family) ∨ ¬l.Has (.style .size))) ∧
    (∀ e, l.render = .error e ↔ ∃ part, l.LacksFirst part ∧ e = .missingPart part) ∧
    (∀ e, l.render = .error e → e.family = .missingField) ∧
    ∀ path, l.render = .ok path ↔ ∃ parts, l.Written parts ∧ path = ":".intercalate parts := by
  refine ⟨?_, fun e => render_eq_error_iff, ?_, fun path => render_eq_ok_iff⟩
  · rw [← exists_lacksFirst_iff]
    constructor
    · intro h
      obtain ⟨e, he⟩ := h
      obtain ⟨part, hlacks, -⟩ := render_eq_error_iff.mp he
      exact ⟨part, hlacks⟩
    · intro h
      obtain ⟨part, hlacks⟩ := h
      exact ⟨_, hlacks.render_eq⟩
  · intro e he
    obtain ⟨part, -, rfl⟩ := render_eq_error_iff.mp he
    rfl

def underlined : Layer :=
  ((((ofKind .subtitles).put (.asset .publicId) "films/talk").put (.style .family) "Arial").put
    (.style .weight) "normal").put (.style .decoration) "underline"

theorem render_outcome_underlined : underlined.render = .error (.missingPart .fontSize) ∧
    Error.family (.missingPart .fontSize) = .missingField ∧
    (underlined.put (.style .size) "18").render = .ok "subtitles:Arial_18_underline:films:talk" := by
  obtain ⟨-, herror, hfamily, -⟩ := render_outcome underlined
  obtain ⟨-, -, -, hok⟩ := render_outcome (underlined.put (.style .size) "18")
  have hhas : underlined.Has (.style .family) := ⟨"Arial", rfl, by decide⟩
  have hlacks : underlined.StyleLacks .fontSize := .size hhas (given?_eq_none_iff.mp rfl)
  have hrender := (herror _).mpr ⟨.fontSize, .style (.inr rfl) ⟨"films/talk", rfl, by decide⟩ hlacks, rfl⟩
  have hmodifiers : (underlined.put (.style .size) "18").modifiers = ["underline"] := by decide
  have hstyled : (underlined.put (.style .size) "18").Styled (some ("_".intercalate ["Arial", "18", "underline"])) :=
    .complete ⟨rfl, by decide⟩ ⟨rfl, by decide⟩ (listed_modifiers_iff.mpr hmodifiers)
  have hid : (underlined.put (.style .size) "18").publicId? = some "films:talk" := by decide
  exact ⟨hrender, hfamily _ hrender, (hok _).mpr ⟨_, .subtitles rfl hid hstyled, by decide⟩⟩

end Layer

end DeliveryPath

import Mathlib.Data.List.Basic
import DeliveryPath.Proofs.ComponentOrder
import DeliveryPath.Proofs.Failure

/-!
# URLs in a path

A remote file or function stands in a path with its URL in Base64. Groups of four digits can be read back
(`Base64Url.decode?_encode`), and none of what a path does to expressions is done to them: the component with the
URL is copied (`Transformation.remote_url_survives`).
-/

namespace DeliveryPath

/-! ## Base64 read back -/

namespace Base64Url

/-- The characters that encoded bytes consist of. -/
def IsDigitOrPadding (c : Char) : Prop := c.isAlphanum = true ∨ c = '-' ∨ c = '_' ∨ c = '='

theorem digitValue?_digit : ∀ n < 64, digitValue? (digit n) = some n := by decide

theorem digit_ne_padding : ∀ n < 64, digit n ≠ '=' := by decide

theorem isDigitOrPadding_digit {n : Nat} (h : n < 64) : IsDigitOrPadding (digit n) := by
  have hdigits : ∀ n < 64, (digit n).isAlphanum = true ∨ digit n = '-' ∨ digit n = '_' := by decide
  rcases hdigits n h with hd | hd | hd
  · exact .inl hd
  · exact .inr (.inl hd)
  · exact .inr (.inr (.inl hd))

/-- A group that is full or not the last one. -/
theorem decode?_group {p q r s : Nat} (hp : p < 64) (hq : q < 64) (hr : r < 64) (hs : s < 64) (rest : List Char) :
    decode? (digit p :: digit q :: digit r :: digit s :: rest) = (decode? rest).map fun bytes =>
      UInt8.ofNat (p * 4 + q / 16) :: UInt8.ofNat (q % 16 * 16 + r / 4) :: UInt8.ofNat (r % 4 * 64 + s) :: bytes := by
  have hpadding := digit_ne_padding s hs
  rw [decode?]
  · rw [digitValue?_digit p hp, digitValue?_digit q hq, digitValue?_digit r hr, digitValue?_digit s hs]
    cases decode? rest <;> rfl
  · intro _ hlast
    exact absurd hlast hpadding
  · intro hlast
    exact absurd hlast hpadding

theorem decode?_two {p q : Nat} (hp : p < 64) (hq : q < 64) (hrest : q % 16 = 0) :
    decode? [digit p, digit q, '=', '='] = some [UInt8.ofNat (p * 4 + q / 16)] := by
  rw [decode?, digitValue?_digit p hp, digitValue?_digit q hq]
  exact if_pos hrest

theorem decode?_three {p q r : Nat} (hp : p < 64) (hq : q < 64) (hr : r < 64) (hrest : r % 4 = 0) :
    decode? [digit p, digit q, digit r, '='] =
      some [UInt8.ofNat (p * 4 + q / 16), UInt8.ofNat (q % 16 * 16 + r / 4)] := by
  rw [decode?]
  · rw [digitValue?_digit p hp, digitValue?_digit q hq, digitValue?_digit r hr]
    exact if_pos hrest
  · exact digit_ne_padding r hr

theorem ofNat_eq_of_toNat {a : UInt8} {n : Nat} (h : n = a.toNat) : UInt8.ofNat n = a := by
  rw [h, UInt8.ofNat_toNat]

theorem decode?_encode (bytes : List UInt8) : decode? (encode bytes) = some bytes := by
  induction bytes using encode.induct with
  | case1 => rfl
  | case2 a =>
    have ha := a.toNat_lt
    rw [encode, decode?_two (by omega) (by omega) (by omega), ofNat_eq_of_toNat (a := a) (by omega)]
  | case3 a b =>
    have ha := a.toNat_lt
    have hb := b.toNat_lt
    rw [encode, decode?_three (by omega) (by omega) (by omega) (by omega), ofNat_eq_of_toNat (a := a) (by omega),
      ofNat_eq_of_toNat (a := b) (by omega)]
  | case4 a b c rest ih =>
    have ha := a.toNat_lt
    have hb := b.toNat_lt
    have hc := c.toNat_lt
    rw [encode, decode?_group (by omega) (by omega) (by omega) (by omega), ih, Option.map_some,
      ofNat_eq_of_toNat (a := a) (by omega), ofNat_eq_of_toNat (a := b) (by omega),
      ofNat_eq_of_toNat (a := c) (by omega)]

theorem isDigitOrPadding_of_mem_encode {bytes : List UInt8} {c : Char} (h : c ∈ encode bytes) : IsDigitOrPadding c := by
  induction bytes using encode.induct with
  | case1 => cases h
  | case2 a =>
    have ha := a.toNat_lt
    simp only [encode, List.mem_cons, List.not_mem_nil, or_false] at h
    rcases h with rfl | rfl | rfl | rfl
    · exact isDigitOrPadding_digit (by omega)
    · exact isDigitOrPadding_digit (by omega)
    · exact .inr (.inr (.inr rfl))
    · exact .inr (.inr (.inr rfl))
  | case3 a b =>
    have ha := a.toNat_lt
    have hb := b.toNat_lt
    simp only [encode, List.mem_cons, List.not_mem_nil, or_false] at h
    rcases h with rfl | rfl | rfl | rfl
    · exact isDigitOrPadding_digit (by omega)
    · exact isDigitOrPadding_digit (by omega)
    · exact isDigitOrPadding_digit (by omega)
    · exact .inr (.inr (.inr rfl))
  | case4 a b d rest ih =>
    have ha := a.toNat_lt
    have hb := b.toNat_lt
    have hd := d.toNat_lt
    simp only [encode, List.mem_cons] at h
    rcases h with rfl | rfl | rfl | rfl | h
    · exact isDigitOrPadding_digit (by omega)
    · exact isDigitOrPadding_digit (by omega)
    · exact isDigitOrPadding_digit (by omega)
    · exact isDigitOrPadding_digit (by omega)
    · exact ih h

theorem decode?_encodeText (text : String) : decode? (encodeText text).toList = some (utf8 text) := by
  rw [encodeText, String.toList_ofList, decode?_encode, utf8_eq]

theorem isDigitOrPadding_of_mem_encodeText {text : String} : ∀ c ∈ (encodeText text).toList, IsDigitOrPadding c := by
  intro c hc
  rw [encodeText, String.toList_ofList] at hc
  exact isDigitOrPadding_of_mem_encode hc

theorem colon_not_mem_encodeText (text : String) : ':' ∉ (encodeText text).toList := by
  intro h
  have hc := isDigitOrPadding_of_mem_encodeText ':' h
  unfold IsDigitOrPadding at hc
  exact absurd hc (by decide)

theorem encodeText_inj {text other : String} (h : encodeText text = encodeText other) : text = other := by
  have hdecode := decode?_encodeText text
  rw [h, decode?_encodeText] at hdecode
  exact (utf8_inj (Option.some.inj hdecode)).symm

end Base64Url

/-! ## Remote files and functions -/

/-- How a transformation refers to what is at a URL: by a layer, or by a function. -/
inductive RemoteUse where
  | overlay (layer : Layer)
  | underlay (layer : Layer)
  | function
  | preFunction

namespace RemoteUse

/-- Only a layer of a remote file takes a URL, and it must not be empty. -/
def Accepts (url : String) : RemoteUse → Prop
  | overlay l | underlay l => l.kind = .fetch ∧ url ≠ ""
  | function | preFunction => True

def set (url : String) : RemoteUse → Transformation → Transformation
  | overlay l, t => t.setOverlay (l.put .url url)
  | underlay l, t => t.setUnderlay (l.put .url url)
  | function, t => t.setFunction (.remote url)
  | preFunction, t => t.setPreFunction (.remote url)

def parameter : RemoteUse → Parameter
  | overlay _ => .overlay
  | underlay _ => .underlay
  | function | preFunction => .customFunction

def value (url : String) : RemoteUse → Value
  | overlay l | underlay l => .layer (l.put .url url)
  | function => .scalar (CustomFunction.remote url).render
  | preFunction => .scalar ("pre:" ++ (CustomFunction.remote url).render)

/-- The key of the component. -/
def key : RemoteUse → String
  | overlay _ => "l"
  | underlay _ => "u"
  | function | preFunction => "fn"

/-- What the component says before the URL: nothing of an image's resource type. -/
def label : RemoteUse → String
  | overlay l | underlay l => (l.resourceType?.map (· ++ ":")).getD "" ++ "fetch:"
  | function => "remote:"
  | preFunction => "pre:remote:"

def component (use : RemoteUse) (url : String) : Component := .entry use.key (use.label ++ Base64Url.encodeText url)

theorem mem_copied (use : RemoteUse) : (use.key, use.parameter) ∈ Parameter.copied := by
  have h : ∀ entry ∈ [("l", Parameter.overlay), ("u", .underlay), ("fn", .customFunction)],
      entry ∈ Parameter.copied := by decide
  exact h _ (by cases use <;> simp [key, parameter])

theorem set_eq (use : RemoteUse) (url : String) (t : Transformation) :
    use.set url t = t.add use.parameter.name (use.value url) := by
  cases use <;> rfl

theorem get?_set (use : RemoteUse) (url : String) (t : Transformation) :
    (use.set url t).get? use.parameter.name = some (use.value url) := by
  rw [set_eq]
  exact Segment.get?_put_self ..

theorem render_fetch {l : Layer} {url : String} (hl : l.kind = .fetch) (hurl : url ≠ "") :
    (l.put .url url).render = .ok ((overlay l).label ++ Base64Url.encodeText url) := by
  have hgiven : (l.put .url url).url? = some (Base64Url.encodeText url) := by
    rw [Layer.url?, Layer.given?, Layer.value_put, if_pos rfl, given_eq_some_iff.mpr ⟨rfl, hurl⟩, Option.map_some]
  have hwritten : (l.put .url url).Written (l.resourceType?.toList ++ ["fetch", Base64Url.encodeText url]) :=
    .fetch hl hgiven
  have hjoin : ":".intercalate ["fetch", Base64Url.encodeText url] = "fetch:" ++ Base64Url.encodeText url := by
    rw [String.intercalate_cons_cons, String.intercalate_singleton]
    rfl
  rw [hwritten.render_eq, label]
  cases l.resourceType? with
  | none => exact congrArg Except.ok hjoin
  | some resourceType =>
    rw [Option.toList_some, List.singleton_append, String.intercalate_cons_cons, hjoin]
    simp only [Option.map_some, Option.getD_some, String.append_assoc]

theorem render_value {use : RemoteUse} {url : String} (h : use.Accepts url) :
    (use.value url).render = .ok (use.label ++ Base64Url.encodeText url) := by
  cases use with
  | overlay l => exact render_fetch h.1 h.2
  | underlay l => exact render_fetch h.1 h.2
  | function => rfl
  | preFunction => exact congrArg Except.ok (String.append_assoc ..).symm

theorem exists_label (use : RemoteUse) : ∃ front, use.label = front ++ ":" := by
  cases use with
  | overlay l | underlay l =>
    refine ⟨(l.resourceType?.map (· ++ ":")).getD "" ++ "fetch", ?_⟩
    rw [String.append_assoc]
    rfl
  | function => exact ⟨"remote", rfl⟩
  | preFunction => exact ⟨"pre:remote", rfl⟩

theorem shows_of_get? {use : RemoteUse} {url : String} (h : use.Accepts url) {s : Segment}
    (hs : s.get? use.parameter.name = some (use.value url)) :
    s.Shows use.parameter (use.label ++ Base64Url.encodeText url) := by
  refine ⟨_, hs, render_value h, ?_⟩
  obtain ⟨front, hlabel⟩ := use.exists_label
  rw [hlabel]
  simp [String.append_eq_empty_iff]

theorem afterColon_inj {u v u' v' : List Char} (hv : ':' ∉ v) (hv' : ':' ∉ v') (h : u ++ ':' :: v = u' ++ ':' :: v') :
    v = v' := by
  have hlast : ∀ {a b : List Char}, ':' ∉ b → (a ++ ':' :: b).reverse.takeWhile (· ≠ ':') = b.reverse := by
    intro a b hb
    have hne : ∀ c ∈ b.reverse, decide (c ≠ ':') = true := fun c hc =>
      decide_eq_true fun he => hb (he ▸ List.mem_reverse.mp hc)
    rw [List.reverse_append, List.reverse_cons, List.append_assoc, List.takeWhile_append_of_pos hne]
    simp
  rw [← List.reverse_inj, ← hlast hv, h, hlast hv']

/-- The URL is what follows the last colon. -/
theorem url_eq_of_component {use other : RemoteUse} {url otherUrl : String}
    (h : (use.component url).text = (other.component otherUrl).text) : url = otherUrl := by
  obtain ⟨front, hlabel⟩ := use.exists_label
  obtain ⟨front', hlabel'⟩ := other.exists_label
  have hchars : (use.key ++ "_" ++ front).toList ++ ':' :: (Base64Url.encodeText url).toList =
      (other.key ++ "_" ++ front').toList ++ ':' :: (Base64Url.encodeText otherUrl).toList := by
    have htext := congrArg String.toList h
    simpa [component, Component.text, hlabel, hlabel'] using htext
  refine Base64Url.encodeText_inj (String.toList_inj.mp ?_)
  exact afterColon_inj (Base64Url.colon_not_mem_encodeText url) (Base64Url.colon_not_mem_encodeText otherUrl) hchars

end RemoteUse

namespace Transformation

/-- The transformation without a parameter of its open segment. -/
def lacking (t : Transformation) (p : Parameter) : Transformation :=
  { t with current := { t.current with parameters := without p.name t.current.parameters } }

theorem get?_lacking (t : Transformation) (p : Parameter) (key : String) :
    (t.lacking p).get? key = if key = p.name then none else t.get? key :=
  valueAt?_without p.name key t.current.parameters

/-- Of the values in the open segment, one that renders does not matter for whether there is a path. -/
theorem exists_generate_add_iff {t : Transformation} (hd : t.current.DistinctKeys) {p : Parameter} {v : Value}
    (hv : v.failure? = none) :
    (∃ path, (t.add p.name v).generate = .ok path) ↔ ∃ path, (t.lacking p).generate = .ok path := by
  have hadded : (t.add p.name v).current.DistinctKeys := hd.put p.name v
  have hlacking : (t.lacking p).current.DistinctKeys := nodup_keys_without hd
  have hget : ∀ key, (t.add p.name v).current.get? key = if p.name = key then some v else t.current.get? key :=
    fun key => Segment.get?_put ..
  have hget' : ∀ key, (t.lacking p).current.get? key = if key = p.name then none else t.current.get? key :=
    get?_lacking t p
  rw [exists_generate_iff, exists_generate_iff, forall_segments_iff, forall_segments_iff]
  refine and_congr_right fun _ => ?_
  rw [Segment.failure?_eq_none_iff hadded, Segment.failure?_eq_none_iff hlacking]
  constructor
  · intro h key w hkey hw
    rw [hget'] at hw
    split_ifs at hw with hp
    exact h key w hkey (by rw [hget, if_neg (Ne.symm hp), hw])
  · intro h key w hkey hw
    rw [hget] at hw
    split_ifs at hw with hp
    · rw [← Option.some.inj hw]
      exact hv
    · exact h key w hkey (by rw [hget', if_neg (Ne.symm hp), hw])

/-- A URL that a layer or a function refers to survives in the path. The encoded URL has none but the characters of
the alphabet and padding, and its bytes can be read back. Setting it never keeps a transformation from having a path.
Wherever a segment holds it, the path shows, under the key, the encoded URL as it is and nothing else. So URLs
that differ are not shown by the same component. -/
theorem remote_url_survives {use : RemoteUse} {url : String} (h : use.Accepts url) :
    (∀ c ∈ (Base64Url.encodeText url).toList, Base64Url.IsDigitOrPadding c) ∧
    Base64Url.decode? (Base64Url.encodeText url).toList = some (utf8 url) ∧
    (∀ {t}, Reachable t → (use.set url t).get? use.parameter.name = some (use.value url) ∧
      ((∃ path, (use.set url t).generate = .ok path) ↔ ∃ path, (t.lacking use.parameter).generate = .ok path)) ∧
    (∀ {t : Transformation} {path : String}, t.generate = .ok path → Joined t.parts path ∧
      ∀ s ∈ t.segments, s.get? use.parameter.name = some (use.value url) →
        (∀ text, .entry use.key text ∈ s.components {} ↔ text = use.label ++ Base64Url.encodeText url) ∧
        (use.component url).text ∈ t.parts) ∧
    ∀ {other : RemoteUse} {otherUrl : String}, (use.component url).text = (other.component otherUrl).text →
      url = otherUrl := by
  refine ⟨Base64Url.isDigitOrPadding_of_mem_encodeText, Base64Url.decode?_encodeText url, ?_, ?_,
    RemoteUse.url_eq_of_component⟩
  · intro t ht
    have hd := (reachable_iff_built.mp ht).distinctKeys t.current t.current_mem_segments
    refine ⟨use.get?_set url t, ?_⟩
    rw [RemoteUse.set_eq]
    refine exists_generate_add_iff hd ?_
    rw [Value.failure?, RemoteUse.render_value h]
  · intro t path hpath
    refine ⟨joined_of_generate hpath, fun s hs hvalue => ?_⟩
    have hshows := RemoteUse.shows_of_get? h hvalue
    have hentry : ∀ text, .entry use.key text ∈ s.components {} ↔ text = use.label ++ Base64Url.encodeText url := by
      intro text
      rw [Segment.entry_mem_components_iff use.mem_copied]
      constructor
      · exact fun htext => htext.unique hshows
      · rintro rfl
        exact hshows
    refine ⟨hentry, List.mem_flatMap.mpr ⟨s, hs, List.mem_append_left _ ?_⟩⟩
    exact List.mem_map.mpr ⟨use.component url, (hentry _).mpr rfl, rfl⟩

/-- The URL has a hyphen and an underscore when it is encoded. -/
def remoteVideo : RemoteUse := .overlay ((Layer.ofKind .fetch).put (.asset .resourceType) "video")

theorem remote_url_survives_remoteVideo : remoteVideo.Accepts "???>>>" ∧ Reachable (empty.set .width "50").chain ∧
    Base64Url.decode? "Pz8_Pj4-".toList = some (utf8 "???>>>") ∧
    ∃ path, (remoteVideo.set "???>>>" (empty.set .width "50").chain).generate = .ok path ∧
      Joined (remoteVideo.set "???>>>" (empty.set .width "50").chain).parts path ∧
      "l_video:fetch:Pz8_Pj4-" ∈ (remoteVideo.set "???>>>" (empty.set .width "50").chain).parts ∧
      path = "w_50/l_video:fetch:Pz8_Pj4-" := by
  have haccepts : remoteVideo.Accepts "???>>>" := ⟨rfl, by decide⟩
  have ht : Reachable (empty.set .width "50").chain := (Reachable.empty.set (.text .width "50") rfl).chain
  have hencoded : Base64Url.encodeText "???>>>" = "Pz8_Pj4-" := by decide
  have htext : (remoteVideo.component "???>>>").text = "l_video:fetch:Pz8_Pj4-" := by decide
  have hwhole : (remoteVideo.set "???>>>" (empty.set .width "50").chain).generate =
      .ok "w_50/l_video:fetch:Pz8_Pj4-" := by decide +kernel
  obtain ⟨-, hdecode, hset, hshown, -⟩ := remote_url_survives haccepts
  rw [hencoded] at hdecode
  obtain ⟨hvalue, -⟩ := hset ht
  obtain ⟨hjoined, hsegment⟩ := hshown hwhole
  have hpart := (hsegment _ (current_mem_segments _) hvalue).2
  rw [htext] at hpart
  exact ⟨haccepts, ht, hdecode, _, hwhole, hjoined, hpart, rfl⟩

end Transformation

end DeliveryPath

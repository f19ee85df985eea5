import ReportExchange.Proofs.Success
import ReportExchange.Proofs.Xml.Element

namespace ReportExchange.Xml

open Text

-- The elements that an event begins.
def Event.tags : Event → List String
  | opening tag | empty tag => [tag]
  | closing | text _ | cdata _ | aside | done => []

namespace Cursor

variable {c c' : Cursor} {e : Event} {es : List Event} {b : UInt8} {bs content rest more : Bytes}
variable {tag : String}

theorem decodeName_eq_ok_iff {name : Bytes} : decodeName name = .ok tag ↔ name = bytes tag := by
  rw [decodeName, ← decode_eq_ok_iff]
  cases decode name <;> simp

section Names

-- The name in the content of a start tag, or of an empty one.
def tagName (content : Bytes) : Bytes :=
  nameOf (if content.getLast? = some slash then content.dropLast else content)

-- After its name, a tag has a space and more, or nothing. The slash of an empty tag comes last.
theorem exists_after_tagName (content : Bytes) :
    ∃ after stop, content = tagName content ++ (after ++ stop) ∧ (∀ b ∈ after.head?, isSpace b) ∧
      (stop = [] ∧ content.getLast? ≠ some slash ∨ stop = [slash]) := by
  have cut (bs : Bytes) : ∃ after, bs = nameOf bs ++ after ∧ ∀ b ∈ after.head?, isSpace b := by
    refine ⟨bs.dropWhile (!isSpace ·), List.takeWhile_append_dropWhile.symm, fun b hb => ?_⟩
    have hd := List.head?_dropWhile_not (!isSpace ·) bs
    rw [Option.mem_def.mp hb] at hd
    simpa using hd
  rw [tagName]
  split
  case isTrue h =>
    obtain ⟨init, rfl⟩ := List.getLast?_eq_some_iff.mp h
    obtain ⟨after, e, ha⟩ := cut init
    rw [List.dropLast_concat]
    exact ⟨after, [slash], by rw [← List.append_assoc, ← e], ha, .inr rfl⟩
  case isFalse h =>
    obtain ⟨after, e, ha⟩ := cut content
    exact ⟨after, [], by rw [List.append_nil, ← e], ha, .inl ⟨rfl, h⟩⟩

theorem tagName_unspaced : ∀ b ∈ tagName content, isSpace b = false := by
  intro b hb
  simpa using List.mem_takeWhile_imp hb

-- A name with a `>` after it is the whole content of its tag.
theorem eq_of_tagName (h : content ++ greaterThan :: rest = tagName content ++ greaterThan :: more) :
    content = tagName content ∧ content.getLast? ≠ some slash := by
  obtain ⟨after, stop, e, ha, hs⟩ := exists_after_tagName content
  have hm : after ++ (stop ++ greaterThan :: rest) = greaterThan :: more := by
    refine List.append_cancel_left (?_ : tagName content ++ _ = tagName content ++ _)
    rw [← h, ← List.append_assoc, ← List.append_assoc, List.append_assoc (tagName content), ← e]
  have hafter : after = [] := by
    refine List.head?_eq_none_iff.mp (Option.eq_none_iff_forall_not_mem.mpr fun b hb => ?_)
    obtain ⟨after, rfl⟩ := List.head?_eq_some_iff.mp hb
    obtain ⟨rfl, _⟩ := List.cons.inj hm
    exact absurd (ha _ rfl) (by decide)
  subst hafter
  obtain ⟨rfl, hl⟩ | rfl := hs
  case inl => exact ⟨by simpa using e, hl⟩
  case inr => cases hm

end Names

section Steps

-- The step begins no element.
def Step.Tagless (s : Step) : Prop :=
  ∀ e, s.event = .ok e → e.tags = []

theorem Step.tagless_error {fault : Fault} {consumed : Nat} {opens : List Bytes} :
    (⟨.error fault, rest, consumed, opens⟩ : Step).Tagless := by
  rintro _ ⟨⟩

theorem Step.tagless_ok {consumed : Nat} {opens : List Bytes} (h : e.tags = []) :
    (⟨.ok e, rest, consumed, opens⟩ : Step).Tagless := by
  rintro _ ⟨⟩
  exact h

theorem Step.tagless_ite {p : Prop} [Decidable p] {s t : Step} (hs : s.Tagless)
    (ht : t.Tagless) : (if p then s else t).Tagless := by
  split
  exacts [hs, ht]

open Step

theorem tagless_endTag : (c.endTag content rest).Tagless := by
  rw [endTag]
  generalize (if content.all isSpace then content else dropSpaceEnd content) = name
  cases c.openTags
  case nil => exact tagless_error
  case cons => exact tagless_ite (tagless_ok (e := .closing) rfl) tagless_error

theorem rest_endTag : (c.endTag content rest).rest = rest := by
  rw [endTag]
  generalize (if content.all isSpace then content else dropSpaceEnd content) = name
  cases c.openTags
  case nil => rfl
  case cons => dsimp only; split <;> rfl

theorem tagless_cdata : (c.cdata content rest).Tagless := by
  intro e h
  simp only [cdata] at h
  split at h
  case isTrue  => split at h <;> cases h; rfl
  case isFalse => cases h

theorem tagless_doctype : (c.doctype content rest).Tagless := by
  intro e h
  simp only [doctype] at h
  split at h
  case isTrue  => split at h <;> cases h; rfl
  case isFalse => cases h

theorem tagless_comment : (c.comment content rest).Tagless :=
  tagless_ite (tagless_ok (e := .aside) rfl) tagless_error

theorem tagless_instruction : (c.instruction content rest).Tagless :=
  tagless_ite (tagless_ok (e := .aside) rfl) tagless_error

theorem tagless_declared : (c.declared bs).Tagless := by
  rw [declared.eq_def]
  dsimp only
  split
  case h_1 => exact tagless_error
  case h_2 =>
    refine tagless_ite ?cdata (tagless_ite ?comment (tagless_ite ?doctype tagless_error))
    case cdata   => split; exacts [tagless_cdata, tagless_error]
    case comment => split; exacts [tagless_comment, tagless_error]
    case doctype => split; exacts [tagless_doctype, tagless_error]

theorem tagless_markup (h : ∀ b ∈ bs.head?, b ∈ leads) : (c.markup bs).Tagless := by
  cases bs
  case nil => exact tagless_error
  case cons b bs =>
    rw [markup]
    split
    case isTrue => exact tagless_declared
    case isFalse hb =>
      split
      case isTrue => split; exacts [tagless_instruction, tagless_error]
      case isFalse hq =>
        have hs : b = slash := by simpa [leads, hb, hq] using h b rfl
        split
        case h_1 => exact tagless_error
        case h_2 => rw [if_pos hs]; exact tagless_endTag

theorem step_markup (h : c.rest = lessThan :: bs) : c.step = c.markup bs := by
  rw [step]
  split
  case h_1 hn => cases h.symm.trans hn
  case h_2 hc =>
    cases h.symm.trans hc
    rw [if_pos rfl]

theorem tagless_step (h : ∀ b bs, c.rest = lessThan :: b :: bs → b ∈ leads) :
    c.step.Tagless := by
  cases hr : c.rest
  case nil => rw [step.eq_def, hr]; exact tagless_ok (e := .done) rfl
  case cons b bs =>
    by_cases hb : b = lessThan
    case pos =>
      rw [step_markup (hb ▸ hr)]
      refine tagless_markup fun b' hb' => ?_
      obtain ⟨bs, rfl⟩ := List.head?_eq_some_iff.mp hb'
      exact h b' bs (hb ▸ hr)
    case neg =>
      intro e he
      rw [step.eq_def, hr] at he
      simp only [if_neg hb, textEvent] at he
      split at he
      case h_1 => cases he
      case h_2 => split at he <;> cases he; rfl

-- An element begins at a `<` only, and not with the bytes that lead in something else.
theorem not_lead_of_step (h : c.step.event = .ok e) (ht : e.tags ≠ []) :
    ∃ b bs, c.rest = lessThan :: b :: bs ∧ b ∉ leads := by
  by_contra hn
  refine ht (tagless_step (fun b bs hr => ?_) e h)
  by_contra hb
  exact hn ⟨b, bs, hr, hb⟩

-- Where no other markup is led in, an element begins.
theorem tag_of_step (hr : c.rest = lessThan :: b :: bs) (hb : b ∉ leads)
    (h : c.step.event = .ok e) :
    ∃ content rest tag, b :: bs = content ++ greaterThan :: rest ∧ Quoted content ∧
      e.tags = [tag] ∧ bytes tag = tagName content := by
  obtain ⟨hs, hbang, hq⟩ : b ≠ slash ∧ b ≠ bang ∧ b ≠ question := by simpa [leads] using hb
  rw [step_markup hr, markup, if_neg hbang, if_neg hq] at h
  split at h
  case h_1 => cases h
  case h_2 content rest hc =>
    obtain ⟨e', hquoted⟩ := cutTag_eq_some_iff.mp hc
    rw [if_neg hs, startTag] at h
    refine ⟨content, rest, ?_⟩
    rw [tagName]
    split at h
    case isTrue hl =>
      obtain ⟨tag, hd, rfl⟩ := map_eq_ok.mp h
      exact ⟨tag, e', hquoted, rfl, by rw [if_pos hl]; exact (decodeName_eq_ok_iff.mp hd).symm⟩
    case isFalse hl =>
      obtain ⟨tag, hd, rfl⟩ := map_eq_ok.mp h
      exact ⟨tag, e', hquoted, rfl, by rw [if_neg hl]; exact (decodeName_eq_ok_iff.mp hd).symm⟩

end Steps

section Paths

theorem first_of_step (h : c.step.event = .ok e) (ht : tag ∈ e.tags) :
    ∀ b ∈ (bytes tag).head?, b ∉ leads := by
  obtain ⟨b, bs, hr, hb⟩ := not_lead_of_step h (List.ne_nil_of_mem ht)
  obtain ⟨content, rest, tag', hc, _, he, hn⟩ := tag_of_step hr hb h
  obtain rfl : tag = tag' := by simpa [he] using ht
  obtain ⟨after, stop, e', _⟩ := exists_after_tagName content
  intro b' hb'
  obtain ⟨name, hname⟩ := List.head?_eq_some_iff.mp hb'
  rw [e', ← hn, hname] at hc
  exact (List.cons.inj hc).1 ▸ hb

-- No name is read that begins like other markup.
theorem Path.first (h : Path c es c') :
    ∀ tag ∈ es.flatMap Event.tags, ∀ b ∈ (bytes tag).head?, b ∉ leads := by
  induction h
  case nil => exact nofun
  case cons he _ _ _ hi =>
    intro tag ht
    cases List.mem_append.mp (List.flatMap_cons ▸ ht)
    case inl ht => exact first_of_step he ht
    case inr ht => exact hi tag ht

-- A name that is read from where it is written, with a `>` after it.
theorem legible_of_step (hr : c.rest = lessThan :: (bytes tag ++ greaterThan :: more))
    (h : c.step.event = .ok e) (ht : tag ∈ e.tags) (hn : bytes tag ≠ []) :
    Legible (bytes tag) := by
  obtain ⟨b, bs, hr', hb⟩ := not_lead_of_step h (List.ne_nil_of_mem ht)
  obtain ⟨content, rest, tag', hc, hq, he, hname⟩ := tag_of_step hr' hb h
  obtain rfl : tag = tag' := by simpa [he] using ht
  have hcut : content ++ greaterThan :: rest = tagName content ++ greaterThan :: more := by
    rw [← hc, ← hname]
    exact (List.cons.inj (hr'.symm.trans hr)).2
  obtain ⟨e', hl⟩ := eq_of_tagName hcut
  rw [← hname] at e'
  exact ⟨hn, hname ▸ tagName_unspaced, first_of_step h ht, e' ▸ hl, e' ▸ hq⟩

theorem legible_of_path (h : Path c es c')
    (hr : c.rest = lessThan :: (bytes tag ++ greaterThan :: more))
    (ht : es.flatMap Event.tags = [tag]) (hn : tag ≠ "") : Legible (bytes tag) := by
  have hfirst := h.first tag (by rw [ht]; exact List.mem_singleton_self tag)
  obtain ⟨b, bs, hb⟩ := List.exists_cons_of_ne_nil (mt bytes_eq_nil_iff.mp hn)
  cases h
  case nil => cases ht
  case cons e es _ he _ _ =>
    have hr' : c.rest = lessThan :: b :: (bs ++ greaterThan :: more) := by rw [hr, hb]; rfl
    obtain ⟨_, _, tag', _, _, htags, _⟩ := tag_of_step hr' (hfirst b (by rw [hb]; rfl)) he
    rw [List.flatMap_cons, htags] at ht
    obtain ⟨rfl, _⟩ := List.cons.inj ht
    have htag : tag' ∈ e.tags := by rw [htags]; exact List.mem_cons_self
    exact legible_of_step hr he htag (hb ▸ List.cons_ne_nil b bs)

theorem step_unnamed (hr : c.rest = lessThan :: slash :: greaterThan :: rest) :
    c.step = c.endTag [] rest := by
  have hc := cutTag_of_quoted quoted_slash rest
  rw [step_markup hr, markup, if_neg (by decide), if_neg (by decide)]
  exact hc ▸ if_pos rfl

theorem Path.tags_of_unnamed (h : Path c es c')
    (hr : c.rest = lessThan :: slash :: greaterThan :: rest) (he : c'.rest = rest) :
    es.flatMap Event.tags = [] := by
  cases h
  case nil => rfl
  case cons e es _ hev _ hp =>
    rw [step_unnamed hr] at hev hp
    have hle : es.length + rest.length ≤ rest.length := by
      simpa only [advance, rest_endTag, he] using hp.length_le
    have hes : es = [] := List.length_eq_zero_iff.mp (by omega)
    rw [List.flatMap_cons, tagless_endTag e hev, hes]
    rfl

end Paths

end Cursor

namespace Element

variable {depth position position' : Nat} {opens opens' : List Bytes} {es : List Event}
variable {rest : Bytes} {tag text : String} {c' : Cursor}

open Cursor

-- The blanks at the start of a line begin no element.
theorem path_of_lineStart {more : Bytes}
    (h : Path ⟨bytes (lineStart depth) ++ lessThan :: more, position, opens⟩ es c')
    (ht : es.flatMap Event.tags ≠ []) :
    ∃ position fs, Path ⟨lessThan :: more, position, opens⟩ fs c' ∧
      fs.flatMap Event.tags = es.flatMap Event.tags := by
  have hs : (⟨bytes (lineStart depth) ++ lessThan :: more, position, opens⟩ : Cursor).step =
      ⟨.ok (.text (lineStart depth)), lessThan :: more, _, opens⟩ :=
    step_text (lineStart_ne_empty depth) (lessThan_not_mem_lineStart depth) (unescape_lineStart depth)
  cases h
  case nil => exact absurd rfl ht
  case cons e fs _ he _ hp =>
    rw [hs] at he
    rw [advance, hs] at hp
    cases he
    exact ⟨_, fs, hp, rfl⟩

-- A leaf with a text that is read as one element has a legible name.
theorem legible_of_leaf
    (h : Path ⟨bytes (render depth (.leaf tag text)) ++ rest, position, opens⟩ es c')
    (ht : es.flatMap Event.tags = [tag]) (hn : tag ≠ "") (htext : text ≠ "") :
    Legible (bytes tag) := by
  have e : bytes (render depth (.leaf tag text)) ++ rest = bytes (lineStart depth) ++
      lessThan :: (bytes tag ++ greaterThan ::
        (bytes (escape text) ++ (angled (slash :: bytes tag) ++ rest))) := by
    rw [render, leafText, if_neg htext, bytes_append, bytes_tagged, angled]
    simp only [List.append_assoc, List.cons_append, List.nil_append]
  rw [e] at h
  obtain ⟨_, _, hp, hfs⟩ := path_of_lineStart h (by rw [ht]; exact List.cons_ne_nil _ _)
  exact legible_of_path hp rfl (hfs.trans ht) hn

-- Without a name and a text, a leaf is the end of an element.
theorem tags_of_unnamed
    (h : Path ⟨bytes (render depth (.leaf "" "")) ++ rest, position, opens⟩ es
      ⟨rest, position', opens'⟩) : es.flatMap Event.tags = [] := by
  by_contra ht
  have e : bytes (render depth (.leaf "" "")) ++ rest =
      bytes (lineStart depth) ++ lessThan :: slash :: greaterThan :: rest := by
    rw [render, leafText, if_pos rfl, bytes_append, bytes_empty, List.append_assoc]
    rfl
  rw [e] at h
  obtain ⟨_, _, hp, hfs⟩ := path_of_lineStart h ht
  exact ht (hfs ▸ hp.tags_of_unnamed rfl rfl)

end Element

end ReportExchange.Xml

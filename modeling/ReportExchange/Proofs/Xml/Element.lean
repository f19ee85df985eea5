import ReportExchange.Proofs.Xml.Escaping
import ReportExchange.Proofs.Xml.Name
import ReportExchange.Proofs.Xml.Path
import ReportExchange.Xml.Element

namespace ReportExchange.Xml

open Text

theorem escape_eq_self {s : String} (h : ∀ c ∈ s.toList, escapeChar c = [c]) : escape s = s := by
  have e : s.toList.flatMap escapeChar = s.toList := by
    rw [List.flatMap_def, List.map_congr_left h, ← List.flatMap_def, List.flatMap_singleton']
  rw [escape, e, String.ofList_toList]

namespace Element

-- All names in an element are names by the standard.
mutual

def Named : Element → Prop
  | leaf tag _          => isName tag
  | branch tag children => isName tag ∧ NamedAll children

def NamedAll : List Element → Prop
  | []      => True
  | e :: es => Named e ∧ NamedAll es

end

theorem namedAll_iff {es : List Element} : NamedAll es ↔ ∀ e ∈ es, Named e := by
  induction es
  case nil          => simp [NamedAll]
  case cons e es hi => simp [NamedAll, hi]

-- An element with both of its tags.
def taggedEvents (tag text : String) : List Event :=
  if text = "" then [.opening tag, .closing] else [.opening tag, .text text, .closing]

def leafEvents (tag text : String) : List Event :=
  if text = "" then [.empty tag] else [.opening tag, .text text, .closing]

mutual

def events (depth : Nat) : Element → List Event
  | leaf tag text       => .text (lineStart depth) :: leafEvents tag text
  | branch tag children =>
    .text (lineStart depth) :: .opening tag ::
      (eventsAll (depth + 1) children ++ [.text (lineStart depth), .closing])

def eventsAll (depth : Nat) : List Element → List Event
  | []      => []
  | e :: es => events depth e ++ eventsAll depth es

end

theorem lineStart_chars (depth : Nat) : ∀ c ∈ (lineStart depth).toList, c = '\n' ∨ c = ' ' := by
  intro c hc
  rw [lineStart, String.toList_append, String.toList_ofList] at hc
  cases List.mem_append.mp hc
  case inl hc => exact .inl (List.mem_singleton.mp hc)
  case inr hc => exact .inr (List.eq_of_mem_replicate (String.toList_ofList ▸ hc))

theorem escape_lineStart (depth : Nat) : escape (lineStart depth) = lineStart depth := by
  refine escape_eq_self fun c hc => ?_
  cases lineStart_chars depth c hc
  case inl e => exact e ▸ rfl
  case inr e => exact e ▸ rfl

theorem lineStart_ne_empty (depth : Nat) : lineStart depth ≠ "" := by
  simp [lineStart]

theorem lessThan_not_mem_lineStart (depth : Nat) : '<' ∉ (lineStart depth).toList := by
  have h := lessThan_not_mem_escape (lineStart depth)
  rwa [escape_lineStart] at h

theorem unescape_lineStart (depth : Nat) : unescape (lineStart depth) = .ok (lineStart depth) := by
  have h := unescape_escape (lineStart depth)
  rwa [escape_lineStart] at h

theorem reads_lineStart {depth : Nat} {more : Bytes} {opens opens' : List Bytes}
    {es : List Event} (hm : more.head? = some lessThan) (h : Reads more opens es opens') :
    Reads (bytes (lineStart depth) ++ more) opens (.text (lineStart depth) :: es) opens' :=
  reads_text (lineStart_ne_empty depth) (lessThan_not_mem_lineStart depth)
    (unescape_lineStart depth) hm h

-- The bytes of everything from a start tag to its end tag.
theorem bytes_tagged (tag body : String) : bytes ("<" ++ tag ++ ">" ++ body ++ "</" ++ tag ++ ">") =
    angled (bytes tag) ++ (bytes body ++ angled (slash :: bytes tag)) := by
  have hl : bytes "<" = [lessThan]         := rfl
  have hg : bytes ">" = [greaterThan]      := rfl
  have hs : bytes "</" = [lessThan, slash] := rfl
  simp [bytes_append, angled, hl, hg, hs]

theorem bytes_empty (tag : String) :
    bytes ("<" ++ tag ++ "/>") = angled (bytes tag ++ [slash]) := by
  simp only [bytes_append, angled, List.append_assoc]
  rfl

-- Text that may stand between the two tags of an element.
theorem reads_tagged {tag text : String} {opens : List Bytes} (h : Legible (bytes tag)) :
    Reads (bytes ("<" ++ tag ++ ">" ++ escape text ++ "</" ++ tag ++ ">")) opens
      (taggedEvents tag text) opens := by
  rw [bytes_tagged, taggedEvents]
  split
  case isTrue ht  =>
    rw [ht]
    exact h.reads_opening.append h.reads_closing
  case isFalse ht =>
    exact h.reads_opening.append (reads_text (mt escape_eq_empty_iff.mp ht)
      (lessThan_not_mem_escape text) (unescape_escape text) rfl h.reads_closing)

theorem reads_leafText {tag text : String} {opens : List Bytes} (h : Legible (bytes tag)) :
    Reads (bytes (leafText tag text)) opens (leafEvents tag text) opens := by
  rw [leafText, leafEvents]
  split
  case isTrue =>
    rw [bytes_empty]
    exact h.reads_empty
  case isFalse ht =>
    have hr : Reads _ opens (taggedEvents tag text) opens := reads_tagged h
    rwa [taggedEvents, if_neg ht] at hr

theorem head?_leafText (tag text : String) : (bytes (leafText tag text)).head? = some lessThan := by
  rw [leafText]
  split <;> simp only [String.append_assoc, bytes_append] <;> rfl

theorem reads_leaf {tag text : String} {opens : List Bytes} (depth : Nat)
    (h : Legible (bytes tag)) : Reads (bytes (render depth (.leaf tag text))) opens
      (events depth (.leaf tag text)) opens := by
  rw [render, events, bytes_append]
  exact reads_lineStart (head?_leafText tag text) (reads_leafText h)

mutual

theorem reads_render (depth : Nat) (opens : List Bytes) : ∀ e, Named e →
    Reads (bytes (render depth e)) opens (events depth e) opens
  | leaf tag text, h => by
    rw [Named] at h
    exact reads_leaf depth (legible_of_isName h)
  | branch tag children, h => by
    rw [Named] at h
    have hb := legible_of_isName h.1
    have he : lineStart depth ++ "<" ++ tag ++ ">" ++ renderAll (depth + 1) children ++
        lineStart depth ++ "</" ++ tag ++ ">" = lineStart depth ++ ("<" ++ tag ++ ">" ++
        (renderAll (depth + 1) children ++ lineStart depth) ++ "</" ++ tag ++ ">") := by
      simp only [String.append_assoc]
    have hc : Reads (bytes (lineStart depth) ++ angled (slash :: bytes tag)) (bytes tag :: opens)
        [.text (lineStart depth), .closing] opens :=
      reads_lineStart rfl hb.reads_closing
    have hi := reads_renderAll (depth + 1) (bytes tag :: opens) children h.2
    rw [render, events, he, bytes_append, bytes_tagged, bytes_append, List.append_assoc]
    exact reads_lineStart rfl (hb.reads_opening.append (hi.append hc))

theorem reads_renderAll (depth : Nat) (opens : List Bytes) : ∀ es, NamedAll es →
    Reads (bytes (renderAll depth es)) opens (eventsAll depth es) opens
  | [], _      => .nil
  | e :: es, h => by
    rw [NamedAll] at h
    rw [renderAll, eventsAll, bytes_append]
    exact (reads_render depth opens e h.1).append (reads_renderAll depth opens es h.2)

end

theorem reads_declaration : Reads (bytes declaration) [] [.aside] [] :=
  .of_step (by decide) nofun fun _ _ => ⟨_, rfl⟩

theorem readings_document {root : Element} (h : Named root) :
    (readings (bytes (document root))).map (·.event) =
      (.aside :: events 0 root).map .ok ++ [.ok .done] := by
  have hr := reads_declaration.append (reads_render 0 [] root h)
  have hw : withoutMark (bytes (document root)) = bytes declaration ++ bytes (render 0 root) := by
    rw [document, bytes_append]
    rfl
  have ⟨position, p⟩ := hr [] 0
  rw [List.append_nil] at p
  rw [readings, hw]
  exact Cursor.readAll_events p rfl (Nat.lt_succ_self _)

end Element

end ReportExchange.Xml

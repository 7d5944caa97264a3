import Mathlib
import Statechart.Proofs.Export.Document

/-!
# Descriptions as comments

A document shows the description of a state as a comment in its element. Within a comment no two
hyphens may stand together, and none at the end, so the text of the comment is the description
between two spaces, with one more space between any two hyphens that stood together. No other text
is spaced in this way and free of such hyphens (`commentOf_iff`). As a comment it is well formed and
ends where it was meant to, whatever the description holds (`WritesComment`).

Main statement: `descriptions_become_comments`.
-/

namespace Statechart.Export

open Text (CodePoint CodePoints codePoints)

/-! ## Spaces between hyphens -/

/-- The second text is the first with a single space between some of the hyphens that stand
together. -/
inductive Spaced : CodePoints → CodePoints → Prop
  | nil : Spaced [] []
  | keep (p : CodePoint) {ps qs : CodePoints} (h : Spaced ps qs) : Spaced (p :: ps) (p :: qs)
  | space {ps qs : CodePoints} (h : Spaced (.char '-' :: ps) qs) :
    Spaced (.char '-' :: .char '-' :: ps) (.char '-' :: .char ' ' :: qs)

/-- No two hyphens stand together in the text. -/
def Undoubled (ps : CodePoints) : Prop := ¬ [.char '-', .char '-'] <:+: ps

theorem undoubled_cons {p : CodePoint} {ps : CodePoints} :
    Undoubled (p :: ps) ↔ ¬ (p = .char '-' ∧ ps.head? = some (.char '-')) ∧ Undoubled ps := by
  have hfront : [.char '-', .char '-'] <+: p :: ps ↔
      p = .char '-' ∧ ps.head? = some (.char '-') := by
    cases ps <;> simp [eq_comm]
  rw [Undoubled, List.infix_cons_iff, not_or, hfront, Undoubled]

namespace Spaced

variable {ps qs rs : CodePoints}

theorem head?_eq (h : Spaced ps qs) : qs.head? = ps.head? := by
  cases h <;> rfl

/-- What is no space stays as it is. -/
theorem filter_eq (h : Spaced ps qs) : qs.filter (· ≠ .char ' ') = ps.filter (· ≠ .char ' ') := by
  induction h with
  | nil => rfl
  | keep p _ ih => rw [List.filter_cons, List.filter_cons, ih]
  | space _ ih => simpa using ih

/-- Only one spacing leaves no hyphens together. -/
theorem unique (hq : Spaced ps qs) (hr : Spaced ps rs) (hqs : Undoubled qs) (hrs : Undoubled rs) :
    qs = rs := by
  -- where one spacing puts a space and the other does not, the other has two hyphens in front
  induction hq generalizing rs with
  | nil =>
    cases hr
    rfl
  | keep p hq ih =>
    obtain ⟨hfirst, hrest⟩ := undoubled_cons.1 hqs
    cases hr with
    | keep _ hr => rw [ih hr hrest (undoubled_cons.1 hrs).2]
    | space hr => exact absurd ⟨rfl, hq.head?_eq⟩ hfirst
  | space hq ih =>
    have hrest := (undoubled_cons.1 (undoubled_cons.1 hqs).2).2
    cases hr with
    | keep _ hr => exact absurd ⟨rfl, hr.head?_eq⟩ (undoubled_cons.1 hrs).1
    | space hr => rw [ih hr hrest (undoubled_cons.1 (undoubled_cons.1 hrs).2).2]

end Spaced

theorem spaced_spaceHyphens (ps : CodePoints) : Spaced ps (spaceHyphens ps) := by
  fun_induction spaceHyphens ps with
  | case1 ps ih => exact .space ih
  | case2 p ps _ ih => exact .keep p ih
  | case3 => exact .nil

theorem undoubled_spaceHyphens (ps : CodePoints) : Undoubled (spaceHyphens ps) := by
  fun_induction spaceHyphens ps with
  | case1 ps ih => exact undoubled_cons.2 ⟨by simp, undoubled_cons.2 ⟨by simp, ih⟩⟩
  | case2 p ps hpair ih =>
    refine undoubled_cons.2 ⟨?_, ih⟩
    rintro ⟨rfl, hhead⟩
    rw [(spaced_spaceHyphens ps).head?_eq] at hhead
    obtain ⟨qs, rfl⟩ := List.head?_eq_some_iff.1 hhead
    exact hpair qs rfl rfl
  | case3 => simp [Undoubled]

/-- **Spacing hyphens** is the one way to put single spaces between hyphens that stand together
after which none do. -/
theorem spaced_and_undoubled_iff {ps qs : CodePoints} :
    Spaced ps qs ∧ Undoubled qs ↔ qs = spaceHyphens ps := by
  constructor
  · rintro ⟨hspaced, hundoubled⟩
    exact hspaced.unique (spaced_spaceHyphens ps) hundoubled (undoubled_spaceHyphens ps)
  · rintro rfl
    exact ⟨spaced_spaceHyphens ps, undoubled_spaceHyphens ps⟩

/-! ## The text of a comment -/

/-- The second text is the first between two spaces, made fit for a comment by single spaces
between hyphens that stand together. -/
structure CommentOf (d t : CodePoints) : Prop where
  spaced : Spaced (.char ' ' :: (d ++ [.char ' '])) t
  undoubled : Undoubled t
  last : t.getLast? ≠ some (.char '-')
  visible : t.filter (· ≠ .char ' ') = d.filter (· ≠ .char ' ')

theorem spaceHyphens_append_space (ps : CodePoints) :
    spaceHyphens (ps ++ [.char ' ']) = spaceHyphens ps ++ [.char ' '] := by
  fun_induction spaceHyphens ps with
  | case1 ps ih =>
    rw [List.cons_append, List.cons_append, spaceHyphens, ← List.cons_append, ih]
    rfl
  | case2 p ps hpair ih =>
    rw [List.cons_append, spaceHyphens, ih, List.cons_append]
    rintro qs rfl hqs
    cases ps with
    | nil => simp at hqs
    | cons p' ps =>
      obtain ⟨rfl, -⟩ := List.cons.inj hqs
      exact hpair ps rfl rfl
  | case3 => rfl

/-- The spaces around a description may be there before its hyphens are spaced. -/
theorem commentText_eq_spaceHyphens (d : CodePoints) :
    commentText d = spaceHyphens (.char ' ' :: (d ++ [.char ' '])) := by
  rw [spaceHyphens, spaceHyphens_append_space, commentText]
  simp

theorem commentOf_commentText (d : CodePoints) : CommentOf d (commentText d) := by
  have hspaced := spaced_spaceHyphens (.char ' ' :: (d ++ [.char ' ']))
  have hundoubled := undoubled_spaceHyphens (.char ' ' :: (d ++ [.char ' ']))
  rw [← commentText_eq_spaceHyphens] at hspaced hundoubled
  refine ⟨hspaced, hundoubled, ?_, hspaced.filter_eq.trans ?_⟩
  · rw [commentText, ← List.cons_append, List.getLast?_concat]
    decide
  · simp

/-- **The text of a comment** is the only one that a description gives. -/
theorem commentOf_iff {d t : CodePoints} : CommentOf d t ↔ t = commentText d := by
  constructor
  · intro h
    rw [commentText_eq_spaceHyphens]
    exact spaced_and_undoubled_iff.1 ⟨h.spaced, h.undoubled⟩
  · rintro rfl
    exact commentOf_commentText d

/-! ## Well-formed comments -/

/-- What XML admits within a comment: characters, where a hyphen has one that is no hyphen after
it. -/
inductive CommentBody : List Char → Prop
  | nil : CommentBody []
  | char {c : Char} {cs : List Char} (hc : c ≠ '-') (hx : isXmlChar c) (h : CommentBody cs) :
    CommentBody (c :: cs)
  | hyphen {c : Char} {cs : List Char} (hc : c ≠ '-') (hx : isXmlChar c) (h : CommentBody cs) :
    CommentBody ('-' :: c :: cs)

/-- The text is a comment of XML. -/
def IsComment (cs : List Char) : Prop :=
  ∃ body, CommentBody body ∧ cs = "<!--".toList ++ (body ++ "-->".toList)

/-- A node that holds the text is written as a comment of XML. It ends where it was meant to:
whatever stands after it, no other comment begins where it does. -/
def WritesComment (t : String) : Prop :=
  ∀ depth, ∃ c : String, (Xml.comment t).write depth = indent depth ++ c ++ "\n" ∧
    IsComment c.toList ∧ ∀ cs rest, IsComment cs → cs <+: c.toList ++ rest → cs = c.toList

theorem commentBody_of_undoubled : ∀ {cs : List Char}, (∀ c ∈ cs, isXmlChar c) →
    Undoubled (cs.map .char) → cs.getLast? ≠ some '-' → CommentBody cs
  | [], _, _, _ => .nil
  | [c], hx, _, hlast => .char (by simpa using hlast) (hx c (by simp)) .nil
  | c :: c' :: cs, hx, hundoubled, hlast => by
    obtain ⟨hpair, hundoubled'⟩ := undoubled_cons.1 hundoubled
    have hx' : ∀ a ∈ c' :: cs, isXmlChar a := fun a ha => hx a (List.mem_cons_of_mem _ ha)
    by_cases hc : c = '-'
    · -- a hyphen takes the character after it along
      subst hc
      have hc' : c' ≠ '-' := by simpa using hpair
      refine .hyphen hc' (hx' c' (by simp)) (commentBody_of_undoubled
        (fun a ha => hx' a (List.mem_cons_of_mem _ ha)) (undoubled_cons.1 hundoubled').2 ?_)
      intro h
      simp [List.getLast?_cons, h] at hlast
    · refine .char hc (hx c (by simp)) (commentBody_of_undoubled hx' hundoubled' ?_)
      simpa using hlast

/-- What XML admits and is the text of a comment can stand within one. -/
theorem commentBody_of_commentOf {d : CodePoints} {t : String} (h : CommentOf d (codePoints t))
    (ht : isXmlText t) : CommentBody t.toList := by
  refine commentBody_of_undoubled (List.all_eq_true.1 ht) h.undoubled fun hlast => h.last ?_
  rw [codePoints, List.getLast?_map, hlast, Option.map_some]

/-- The inside of a comment goes on until two hyphens stand together. -/
theorem CommentBody.unique {cs ds rest rest' : List Char} (hcs : CommentBody cs)
    (hds : CommentBody ds) (h : cs ++ '-' :: '-' :: rest = ds ++ '-' :: '-' :: rest') :
    cs = ds := by
  induction hcs generalizing ds with
  | nil =>
    cases hds with
    | nil => rfl
    | char hc => exact absurd (List.cons.inj h).1.symm hc
    | hyphen hc => exact absurd (List.cons.inj (List.cons.inj h).2).1.symm hc
  | char hc _ _ ih =>
    cases hds with
    | nil => exact absurd (List.cons.inj h).1 hc
    | char _ _ hds =>
      obtain ⟨hsame, hrest⟩ := List.cons.inj h
      rw [hsame, ih hds hrest]
    | hyphen => exact absurd (List.cons.inj h).1 hc
  | hyphen hc _ _ ih =>
    cases hds with
    | nil => exact absurd (List.cons.inj (List.cons.inj h).2).1 hc
    | char hc' => exact absurd (List.cons.inj h).1.symm hc'
    | hyphen _ _ hds =>
      obtain ⟨hsame, hrest⟩ := List.cons.inj (List.cons.inj h).2
      rw [hsame, ih hds hrest]

theorem IsComment.unique {cs ds rest : List Char} (hcs : IsComment cs) (hds : IsComment ds)
    (h : cs <+: ds ++ rest) : cs = ds := by
  obtain ⟨body, hbody, rfl⟩ := hcs
  obtain ⟨body', hbody', rfl⟩ := hds
  obtain ⟨rest', h⟩ := h
  simp only [List.append_assoc, List.append_cancel_left_eq] at h
  rw [hbody.unique hbody' h]

theorem writesComment {t : String} (h : CommentBody t.toList) : WritesComment t := by
  intro depth
  have hcomment : IsComment ("<!--" ++ t ++ "-->").toList :=
    ⟨t.toList, h, by simp [String.toList_append]⟩
  refine ⟨"<!--" ++ t ++ "-->", ?_, hcomment, fun cs rest hcs hbegins =>
    hcs.unique hcomment hbegins⟩
  simp [Xml.write, String.append_assoc]

/-! ## The comments of states -/

namespace Xml

/-- The text of a comment. -/
def comment? : Xml → Option String
  | comment text => some text
  | element .. | textElement .. => none

/-- The comments right inside an element. -/
def comments (x : Xml) : List String := x.children.filterMap comment?

theorem mem_comments {t : String} {x : Xml} : t ∈ x.comments ↔ comment t ∈ x.children := by
  rw [comments, List.mem_filterMap]
  constructor
  · rintro ⟨y, hy, hyt⟩
    cases y with
    | comment =>
      cases hyt
      exact hy
    | element => cases hyt
    | textElement => cases hyt
  · exact fun h => ⟨_, h, rfl⟩

end Xml

/-- The element is that of the state: it has its identifier, and its comments are that of the
description, if there is one that is not empty. -/
structure Describes (s : State) (x : Xml) : Prop where
  id : x.attribute? "id" = some s.id
  comments : x.comments.map codePoints =
    (s.description.toList.filter fun d => !d.isEmpty).map commentText
  wellFormed : ∀ t ∈ x.comments, WritesComment t

/-- The elements of the states are the first in the document with the given root, each with the
comment of its state, and these comments stand in the text of the document. -/
structure Xml.ShowsDescriptions (m : Definition) (r : Xml) : Prop where
  describes : List.Forall₂ Describes m.states (r.children.take m.states.length)
  written : ∀ x ∈ r.children, ∀ t ∈ x.comments,
    ((comment t).write 2).toList <:+: (document r).toList

namespace Scxml

variable {m : Definition}

theorem eq_of_attr {name value : String} {a : String × String} (h : attr name value = .ok a) :
    a = (name, value) := by
  rw [attr, admitted] at h
  split at h <;> cases h
  rfl

/-- A description that is shown is not empty, and XML admits its comment. -/
theorem comments_of_description {text : Option CodePoints} {note : List Xml}
    (h : description text = .ok note) :
    (note.filterMap Xml.comment?).map codePoints =
        (text.toList.filter fun d => !d.isEmpty).map commentText ∧
      ∀ t ∈ note.filterMap Xml.comment?, isXmlText t := by
  cases text with
  | none =>
    cases h
    exact ⟨rfl, by simp⟩
  | some d =>
    by_cases hempty : d.isEmpty
    · rw [description, if_pos hempty] at h
      cases h
      exact ⟨by simp [hempty], by simp⟩
    · rw [description, if_neg hempty] at h
      obtain ⟨t, ht, h⟩ := exists_of_bind_eq_ok h
      obtain ⟨t', ht', h⟩ := exists_of_bind_eq_ok h
      cases h
      rw [admitted] at ht'
      split at ht'
      · rename_i hxml
        cases ht'
        have hcomment : commentText d = codePoints t := by
          rw [Text.encodable] at ht
          split at ht
          · cases ht
            exact Text.string?_eq_some_iff.1 ‹_›
          · cases ht
        simpa [Xml.comment?, hempty, hcomment] using hxml
      · cases ht'

theorem comments_of_hook {name : String} {texts : List String} {xs : List Xml}
    (h : hook m name texts = .ok xs) : xs.filterMap Xml.comment? = [] := by
  rw [hook] at h
  split at h
  · cases h
    rfl
  · obtain ⟨children, -, h⟩ := exists_of_bind_eq_ok h
    cases h
    rfl

theorem comment?_of_transition {t : Transition} {x : Xml} (h : transition m t = .ok x) :
    x.comment? = none := by
  rw [transition] at h
  obtain ⟨event, -, h⟩ := exists_of_bind_eq_ok h
  obtain ⟨cond, -, h⟩ := exists_of_bind_eq_ok h
  obtain ⟨target, -, h⟩ := exists_of_bind_eq_ok h
  obtain ⟨children, -, h⟩ := exists_of_bind_eq_ok h
  cases h
  rfl

theorem comments_of_transitions {ts : List Transition} {xs : List Xml}
    (h : List.Forall₂ (fun t x => transition m t = .ok x) ts xs) :
    xs.filterMap Xml.comment? = [] := by
  induction h with
  | nil => rfl
  | cons ht _ ih => rwa [List.filterMap_cons_none (comment?_of_transition ht)]

theorem describes_of_state {s : State} {x : Xml} (h : state m s = .ok x) : Describes s x := by
  rw [state] at h
  obtain ⟨id, hid, h⟩ := exists_of_bind_eq_ok h
  obtain ⟨note, hnote, h⟩ := exists_of_bind_eq_ok h
  obtain ⟨entry, hentry, h⟩ := exists_of_bind_eq_ok h
  obtain ⟨exit, hexit, h⟩ := exists_of_bind_eq_ok h
  obtain ⟨leaving, hleaving, h⟩ := exists_of_bind_eq_ok h
  cases h
  obtain rfl := eq_of_attr hid
  obtain ⟨hdescription, hxml⟩ := comments_of_description hnote
  -- the comments of actions are further inside, in the elements of hooks and transitions
  have hcomments : Xml.comments (.element "state" [("id", s.id)]
      (note ++ entry ++ exit ++ leaving)) = note.filterMap Xml.comment? := by
    simp only [Xml.comments, Xml.children, List.filterMap_append, comments_of_hook hentry,
      comments_of_hook hexit, comments_of_transitions (forall₂_of_mapM_eq_ok hleaving),
      List.append_nil]
  refine ⟨rfl, hcomments ▸ hdescription, fun t ht => ?_⟩
  rw [hcomments] at ht
  have hmem : codePoints t ∈ (s.description.toList.filter fun d => !d.isEmpty).map commentText :=
    hdescription ▸ List.mem_map_of_mem ht
  obtain ⟨d, -, hd⟩ := List.mem_map.1 hmem
  exact writesComment (commentBody_of_commentOf (commentOf_iff.2 hd.symm) (hxml t ht))

theorem describes_of_root {r : Xml} (h : root m = .ok r) :
    List.Forall₂ Describes m.states (r.children.take m.states.length) := by
  rw [root] at h
  obtain ⟨name, -, h⟩ := exists_of_bind_eq_ok h
  obtain ⟨initial, -, h⟩ := exists_of_bind_eq_ok h
  obtain ⟨states, hstates, h⟩ := exists_of_bind_eq_ok h
  obtain ⟨choices, -, h⟩ := exists_of_bind_eq_ok h
  cases h
  have hall := forall₂_of_mapM_eq_ok hstates
  rw [Xml.children, hall.length_eq, List.take_left]
  exact hall.imp fun _ _ => describes_of_state

end Scxml

/-! ## Nodes in the text of a document -/

theorem prefix_append (s t : String) : s.toList <+: (s ++ t).toList :=
  ⟨t.toList, String.toList_append.symm⟩

theorem suffix_append (s t : String) : t.toList <:+ (s ++ t).toList :=
  ⟨s.toList, String.toList_append.symm⟩

theorem write_infix_writeAll {x : Xml} {xs : List Xml} (hx : x ∈ xs) (depth : Nat) :
    (x.write depth).toList <:+: (writeAll depth xs).toList := by
  induction xs with
  | nil => simp at hx
  | cons x' xs ih =>
    rcases List.mem_cons.1 hx with rfl | hx
    · exact (prefix_append _ _).isInfix
    · exact (ih hx).trans (suffix_append _ _).isInfix

theorem write_element {name : String} {attributes : List (String × String)} {children : List Xml}
    (h : children ≠ []) (depth : Nat) :
    (Xml.element name attributes children).write depth =
      indent depth ++ "<" ++ (name ++ String.join (attributes.map writeAttribute)) ++ ">\n" ++
        writeAll (depth + 1) children ++ (indent depth ++ "</" ++ name ++ ">\n") := by
  obtain ⟨x, xs, rfl⟩ := List.exists_cons_of_ne_nil h
  rw [Xml.write, writeAll]
  simp only [String.append_assoc]

/-- A node stands in the text of the element that it is right inside. -/
theorem write_infix_of_mem_children {x y : Xml} (hx : x ∈ y.children) (depth : Nat) :
    (x.write (depth + 1)).toList <:+: (y.write depth).toList := by
  cases y with
  | comment => simp [Xml.children] at hx
  | textElement => simp [Xml.children] at hx
  | element name attributes children =>
    rw [Xml.children] at hx
    rw [write_element (List.ne_nil_of_mem hx)]
    exact ((write_infix_writeAll hx _).trans (suffix_append _ _).isInfix).trans
      (prefix_append _ _).isInfix

theorem write_suffix_document (r : Xml) : (r.write 0).toList <:+ (document r).toList :=
  suffix_append _ _

theorem showsDescriptions_of_root {m : Definition} {r : Xml} (h : Scxml.root m = .ok r) :
    r.ShowsDescriptions m where
  describes := Scxml.describes_of_root h
  written x hx t ht := by
    have hcomment := write_infix_of_mem_children (Xml.mem_comments.1 ht) 1
    have helement := write_infix_of_mem_children hx 0
    exact (hcomment.trans helement).trans (write_suffix_document r).isInfix

/-- **Descriptions become comments.** Every description, with surrogates or without, gives one text
for a comment: the description between two spaces, with single spaces between hyphens that stood
together and nowhere else, so that none stand together and none stands at the end. If XML admits the
description and it is not empty, a comment is made of it, which is well formed and ends where it was
meant to. And in the document of a definition, accepted or not, the elements of the states have the
comments of their descriptions and no others. -/
theorem descriptions_become_comments :
    (∀ d t : CodePoints, CommentOf d t ↔ t = commentText d) ∧
      (∀ d : String, isXmlText d → d ≠ "" → ∃ t : String, codePoints t = commentText d ∧
        Scxml.description (some d) = .ok [.comment t] ∧ WritesComment t) ∧
      ∀ (m : Definition) (text : String), scxmlOf (.definition m) = .ok text →
        ∃ r, Scxml.root m = .ok r ∧ text = document r ∧ r.ShowsDescriptions m := by
  refine ⟨fun _ _ => commentOf_iff, fun d hd hne => ?_, fun m text htext => ?_⟩
  · have hpoints : isXmlPoints (codePoints d) := isXmlPoints_iff.2 ⟨d, rfl, hd⟩
    obtain ⟨t, ht, hxml⟩ := Scxml.exists_commentText_eq hpoints
    refine ⟨t, ht.symm, ?_,
      writesComment (commentBody_of_commentOf (commentOf_iff.2 ht.symm) hxml)⟩
    have hshown : (codePoints d).isEmpty = false := by simpa [codePoints] using hne
    have hnodes : Scxml.descriptionNodes (some (codePoints d)) = [.comment t] := by
      simp [Scxml.descriptionNodes, hshown, ht, Text.string?_codePoints]
    rw [← hnodes]
    exact Scxml.description_eq_ok (by simpa using hpoints)
  · obtain ⟨r, hr, h⟩ := exists_of_bind_eq_ok htext
    cases h
    exact ⟨r, hr, rfl, showsDescriptions_of_root hr⟩

/-! ## A signpost -/

namespace Signpost

/-- A notice that would end its comment early, and with a hyphen. -/
def notice : String := "--> exit ---- - -"

/-- A signpost that shows the notice, and nothing in the dark. -/
def declaration : Declaration where
  name := "signpost"
  initial := [⟨"lit", none⟩]
  states := [⟨"lit", some notice, ["buzz()"], [], none⟩, ⟨"dark", some [], [], [], none⟩,
    ⟨"broken", none, [], ["repair()"], none⟩]
  choices := []
  transitions := [⟨"lit", "dark", some "dusk", none, [], none⟩]
  timers := []
  span := none

/-- The definition of the signpost. -/
def machine : Definition := .ofDeclaration declaration "lit"

/-- The notice as a comment, and the document of the signpost. -/
theorem signpost_described :
    CommentOf notice (codePoints " - -> exit - - - - - - ") ∧
      (isXmlText notice ∧ notice ≠ "" ∧ WritesComment " - -> exit - - - - - - ") ∧
      ∃ text r, scxmlOf (.definition machine) = .ok text ∧ text = document r ∧
        r.ShowsDescriptions machine := by
  obtain ⟨htext, hwrites, hshows⟩ := descriptions_become_comments
  have hshown : codePoints " - -> exit - - - - - - " = commentText notice := by decide
  have hnotice : isXmlText notice ∧ notice ≠ "" := by decide
  have hdocument : scxmlOf (.definition machine) = .ok (document (Scxml.tree machine)) := by rfl
  obtain ⟨r, -, hr, hdescribed⟩ := hshows machine _ hdocument
  refine ⟨(htext _ _).2 hshown, ⟨hnotice.1, hnotice.2, ?_⟩, _, r, hdocument, hr, hdescribed⟩
  obtain ⟨t, ht, -, hcomment⟩ := hwrites notice hnotice.1 hnotice.2
  rwa [← Text.codePoints_inj.1 (hshown.trans ht.symm)] at hcomment

end Signpost

end Statechart.Export

import Pcloud.Lib.Segments
import Pcloud.Model.Bytes

/-!
# Canonical paths (`pcloud-fs/src/path_norm.rs`)

A path by its segments: `canonicalise` walks them on a stack, and `parent_of` cuts the text at its last slash.
-/

namespace Pcloud

inductive PathError
  | EmbeddedNul
  | InvalidComponent (component : String)
  | EmptyName
  | EscapesRoot
deriving DecidableEq, Repr

namespace PathNorm

open Segments

def validateNoNul (s : String) : Except PathError Unit :=
  if 0 ∈ utf8 s then .error .EmbeddedNul else .ok ()

/-- One turn of the loop of `canonicalise`. -/
def pushSegment (stack : List (List Char)) (segment : List Char) : Except PathError (List (List Char)) :=
  if segment = [] ∨ segment = ['.'] then .ok stack
  else if segment = ['.', '.'] then
    if stack = [] then .error .EscapesRoot else .ok stack.dropLast
  else .ok (stack ++ [segment])

def canonicalise (path : String) : Except PathError String := do
  validateNoNul path
  let stack ← (path.toList.splitOn '/').foldlM pushSegment []
  if stack = [] then return "/"
  else return String.ofList (render '/' stack)

/-- The places are those of characters: a slash is a character boundary. -/
def parentOf (path : String) : Except PathError String := do
  let canon ← canonicalise path
  if canon = "/" then .error .EscapesRoot
  else
    match rfind '/' canon.toList with
    | some 0 => return "/"
    | some idx => return String.ofList (canon.toList.take idx)
    | none => .error .EscapesRoot

def joinChild (parent name : String) : Except PathError String := do
  validateNoNul parent
  validateNoNul name
  if name = "" then .error .EmptyName
  else if name = "." then canonicalise parent
  else if name = ".." then parentOf parent
  else if '/' ∈ name.toList then .error (.InvalidComponent name)
  else
    let base ← canonicalise parent
    return if base = "/" then "/" ++ name else base ++ "/" ++ name

/-- It begins with a slash and ends with none, and no segment is empty, `.` or `..`. -/
structure IsCanonical (path : String) : Prop where
  leading : path.toList.head? = some '/'
  trailing : path ≠ "/" → path.toList.getLast? ≠ some '/'
  segments : path ≠ "/" → ∀ segment ∈ (path.toList.drop 1).splitOn '/',
    segment ≠ [] ∧ segment ≠ ['.'] ∧ segment ≠ ['.', '.']

/-! ## Texts without NUL -/

theorem validateNoNul_ok {s : String} : validateNoNul s = .ok () ↔ 0 ∉ utf8 s := by
  unfold validateNoNul
  split <;> simp_all

/-- What one character adds to the bytes of a text has no zero. -/
def NoNul (c : Char) : Prop := 0 ∉ String.utf8EncodeChar c

theorem notMem_utf8 {s : String} : 0 ∉ utf8 s ↔ ∀ c ∈ s.toList, NoNul c := by
  rw [utf8_eq_flatMap, List.mem_flatMap]
  simp [NoNul]

theorem noNul_slash : NoNul '/' := by
  have hencode : String.utf8EncodeChar '/' = [0x2F] := by decide
  rw [NoNul, hencode]
  decide

/-! ## The walk -/

/-- What a segment does to the stack. -/
def moveOf (segment : List Char) : Move :=
  if segment = [] ∨ segment = ['.'] then .stay else if segment = ['.', '.'] then .up else .down

theorem pushSegment_eq : pushSegment = step moveOf .EscapesRoot := by
  funext stack segment
  unfold pushSegment step moveOf
  split
  · rfl
  · split <;> rfl

theorem moveOf_eq_down {segment : List Char} :
    moveOf segment = .down ↔ segment ≠ [] ∧ segment ≠ ['.'] ∧ segment ≠ ['.', '.'] := by
  unfold moveOf
  split
  · simp_all
    tauto
  · split <;> simp_all

/-- A segment of a canonical path. -/
structure Plain (segment : List Char) : Prop where
  down : moveOf segment = .down
  noSlash : '/' ∉ segment
  noNul : ∀ c ∈ segment, NoNul c

/-- The text of a stack. -/
def text (stack : List (List Char)) : String := if stack = [] then "/" else String.ofList (render '/' stack)

variable {path p c name : String} {stack : List (List Char)}

theorem bind_eq_ok {ε α β : Type} {x : Except ε α} {f : α → Except ε β} {b : β} :
    (x >>= f) = .ok b ↔ ∃ a, x = .ok a ∧ f a = .ok b := by
  cases x with
  | error e => simp [bind, Except.bind]
  | ok a => simp [bind, Except.bind]

theorem canonicalise_eq_ok : canonicalise path = .ok c ↔ 0 ∉ utf8 path ∧
    ∃ stack, (path.toList.splitOn '/').foldlM pushSegment [] = .ok stack ∧ c = text stack := by
  have hanswer : ∀ stack : List (List Char),
      (if stack = [] then pure "/" else pure (String.ofList (render '/' stack)) : Except PathError String) =
        .ok (text stack) := by
    intro stack
    unfold text
    split <;> rfl
  rw [canonicalise, bind_eq_ok]
  simp only [bind_eq_ok, hanswer, Except.ok.injEq]
  constructor
  · rintro ⟨⟨⟩, hnul, stack, hwalk, rfl⟩
    exact ⟨validateNoNul_ok.mp hnul, stack, hwalk, rfl⟩
  · rintro ⟨hnul, stack, hwalk, rfl⟩
    exact ⟨(), validateNoNul_ok.mpr hnul, stack, hwalk, rfl⟩

theorem canonicalise_congr {path' : String} (hnul : 0 ∈ utf8 path ↔ 0 ∈ utf8 path')
    (hwalk : (path.toList.splitOn '/').foldlM pushSegment [] = (path'.toList.splitOn '/').foldlM pushSegment []) :
    canonicalise path = canonicalise path' := by
  unfold canonicalise validateNoNul
  rw [hwalk]
  simp only [hnul]

/-! ## Canonical texts -/

theorem toList_text (hstack : stack ≠ []) : (text stack).toList = render '/' stack := by
  rw [text, if_neg hstack, String.toList_ofList]

theorem toList_text_concat (last : List Char) :
    (text (stack ++ [last])).toList = render '/' stack ++ '/' :: last := by
  rw [toList_text (List.append_ne_nil_of_right_ne_nil _ (List.cons_ne_nil _ _)), render_concat]

theorem splitOn_text (hstack : ∀ segment ∈ stack, Plain segment) :
    (text stack).toList.splitOn '/' = [] :: if stack = [] then [[]] else stack := by
  by_cases hempty : stack = []
  · subst hempty
    rfl
  · rw [toList_text hempty, splitOn_render fun segment hsegment => (hstack segment hsegment).noSlash, if_neg hempty]

theorem splitOn_drop_text (hstack : ∀ segment ∈ stack, Plain segment) (hne : stack ≠ []) :
    ((text stack).toList.drop 1).splitOn '/' = stack := by
  have hsplit := splitOn_text hstack
  rw [if_neg hne, toList_text hne] at hsplit
  rw [toList_text hne]
  cases stack with
  | nil => exact absurd rfl hne
  | cons first rest =>
    rw [render, List.flatMap_cons, List.cons_append, List.splitOn_cons_eq_if_modifyHead,
      if_pos (beq_self_eq_true _)] at hsplit
    exact (List.cons.inj hsplit).2

theorem foldlM_text (hstack : ∀ segment ∈ stack, Plain segment) :
    ((text stack).toList.splitOn '/').foldlM pushSegment [] = .ok stack := by
  have hdown : stack.foldlM pushSegment [] = .ok stack := by
    rw [pushSegment_eq]
    exact foldlM_down (fun segment hsegment => (hstack segment hsegment).down) []
  rw [splitOn_text hstack]
  split
  · next hempty =>
    subst hempty
    rfl
  · exact hdown

theorem noNul_text (hstack : ∀ segment ∈ stack, Plain segment) : 0 ∉ utf8 (text stack) := by
  rw [notMem_utf8, text]
  intro c hc
  split at hc
  · obtain rfl := List.mem_singleton.mp hc
    exact noNul_slash
  · rw [String.toList_ofList] at hc
    rcases mem_render hc with rfl | ⟨segment, hsegment, hc⟩
    · exact noNul_slash
    · exact (hstack segment hsegment).noNul c hc

theorem canonicalise_text (hstack : ∀ segment ∈ stack, Plain segment) : canonicalise (text stack) = .ok (text stack) :=
  canonicalise_eq_ok.mpr ⟨noNul_text hstack, stack, foldlM_text hstack, rfl⟩

theorem text_eq_slash (hstack : ∀ segment ∈ stack, Plain segment) : text stack = "/" ↔ stack = [] := by
  constructor
  · intro h
    have hwalk := foldlM_text hstack
    rw [h] at hwalk
    exact (Except.ok.inj hwalk).symm
  · intro h
    rw [text, if_pos h]

theorem text_inj {stack' : List (List Char)} (hstack : ∀ segment ∈ stack, Plain segment)
    (hstack' : ∀ segment ∈ stack', Plain segment) (h : text stack = text stack') : stack = stack' := by
  have hwalk := foldlM_text hstack
  rw [h, foldlM_text hstack'] at hwalk
  exact (Except.ok.inj hwalk).symm

theorem isCanonical_text (hstack : ∀ segment ∈ stack, Plain segment) : IsCanonical (text stack) := by
  induction stack using List.reverseRecOn with
  | nil => exact ⟨rfl, fun h => absurd rfl h, fun h => absurd rfl h⟩
  | append_singleton stack last _ =>
    have hlast := hstack last (by simp)
    have hdown := moveOf_eq_down.mp hlast.down
    have hne : stack ++ [last] ≠ [] := List.append_ne_nil_of_right_ne_nil _ (List.cons_ne_nil _ _)
    refine ⟨?_, fun _ => ?_, fun _ => ?_⟩
    · rw [toList_text hne]
      cases stack <;> rfl
    · rw [toList_text_concat, List.getLast?_append_of_ne_nil _ (List.cons_ne_nil _ _),
        List.getLast?_cons_of_ne_nil hdown.1]
      intro h
      exact hlast.noSlash (List.mem_of_getLast? h)
    · rw [splitOn_drop_text hstack hne]
      exact fun segment hsegment => moveOf_eq_down.mp (hstack segment hsegment).down

theorem canonicalise_spec (h : canonicalise path = .ok c) : 0 ∉ utf8 path ∧ ∃ stack,
    (path.toList.splitOn '/').foldlM pushSegment [] = .ok stack ∧ (∀ segment ∈ stack, Plain segment) ∧
      c = text stack := by
  obtain ⟨hnul, stack, hwalk, rfl⟩ := canonicalise_eq_ok.mp h
  refine ⟨hnul, stack, hwalk, fun segment hsegment => ?_, rfl⟩
  rw [pushSegment_eq] at hwalk
  rcases mem_foldlM hwalk segment hsegment with hmem | ⟨hmem, hdown⟩
  · cases hmem
  · exact ⟨hdown, fun hslash => (mem_splitOn hmem hslash).2 rfl, fun c hc =>
      notMem_utf8.mp hnul c (mem_splitOn hmem hc).1⟩

theorem canonicalise_append (h : canonicalise p = .ok c) (q : String) :
    canonicalise (p ++ "/" ++ q) = canonicalise (c ++ "/" ++ q) := by
  obtain ⟨hnul, stack, hwalk, hstack, rfl⟩ := canonicalise_spec h
  have hsplit : ∀ a : String, (a ++ "/" ++ q).toList.splitOn '/' = a.toList.splitOn '/' ++ q.toList.splitOn '/' := by
    intro a
    rw [String.toList_append, String.toList_append, List.append_assoc]
    exact List.splitOn_append_cons_self a.toList q.toList
  apply canonicalise_congr
  · simp only [utf8_append, List.mem_append, hnul, noNul_text hstack]
  · rw [hsplit, hsplit, pushSegment_eq] at *
    rw [foldlM_append_of_ok _ hwalk, foldlM_append_of_ok _ (by rw [← pushSegment_eq]; exact foldlM_text hstack)]

/-! ## Children and parents -/

theorem joinChild_spec {joined : String} (hdot : name ≠ ".") (hdots : name ≠ "..")
    (h : joinChild p name = .ok joined) (hwalk : (p.toList.splitOn '/').foldlM pushSegment [] = .ok stack)
    (hstack : ∀ segment ∈ stack, Plain segment) : Plain name.toList ∧ joined = text (stack ++ [name.toList]) := by
  have htoList : ∀ {s : String}, name.toList = s.toList → name = s := String.toList_injective
  rw [joinChild, bind_eq_ok] at h
  obtain ⟨⟨⟩, hparent, h⟩ := h
  obtain ⟨⟨⟩, hname, h⟩ := bind_eq_ok.mp h
  have hbase : canonicalise p = .ok (text stack) :=
    canonicalise_eq_ok.mpr ⟨validateNoNul_ok.mp hparent, stack, hwalk, rfl⟩
  split at h
  · cases h
  next hempty =>
  split at h
  · cases h
  next hslash =>
  rw [hbase] at h
  obtain rfl := Except.ok.inj h
  refine ⟨⟨?_, hslash, notMem_utf8.mp (validateNoNul_ok.mp hname)⟩, String.toList_injective ?_⟩
  · exact moveOf_eq_down.mpr ⟨fun h => hempty (htoList h), fun h => hdot (htoList h), fun h => hdots (htoList h)⟩
  · rw [toList_text_concat]
    simp only [text_eq_slash hstack]
    split
    · next hroot =>
      subst hroot
      rw [String.toList_append]
      rfl
    · next hroot =>
      rw [String.toList_append, String.toList_append, toList_text hroot, List.append_assoc]
      rfl

theorem parentOf_concat {last : List Char} (hstack : ∀ segment ∈ stack ++ [last], Plain segment) :
    parentOf (text (stack ++ [last])) = .ok (text stack) := by
  have hlast := hstack last (by simp)
  have hne : text (stack ++ [last]) ≠ "/" := by
    rw [ne_eq, text_eq_slash hstack]
    exact List.append_ne_nil_of_right_ne_nil _ (List.cons_ne_nil _ _)
  have hfind : rfind '/' (text (stack ++ [last])).toList = some (render '/' stack).length := by
    rw [toList_text_concat, rfind_append hlast.noSlash]
  rw [parentOf, canonicalise_text hstack]
  show (if text (stack ++ [last]) = "/" then _ else _) = _
  rw [if_neg hne, hfind]
  cases hstack' : stack with
  | nil => rfl
  | cons first rest =>
    have htake : (text (stack ++ [last])).toList.take (render '/' stack).length = render '/' stack := by
      rw [toList_text_concat, List.take_left]
    have htext : text (first :: rest) = String.ofList (render '/' (first :: rest)) := if_neg (List.cons_ne_nil _ _)
    rw [hstack'] at htake
    rw [htext]
    exact congrArg (fun chars => Except.ok (String.ofList chars)) htake

theorem joinChild_dots {last : List Char} (hstack : ∀ segment ∈ stack ++ [last], Plain segment) :
    joinChild (text (stack ++ [last])) ".." = .ok (text stack) := by
  have hparent := validateNoNul_ok.mpr (noNul_text hstack)
  have hname : validateNoNul ".." = .ok () := validateNoNul_ok.mpr (by decide)
  rw [joinChild, hparent, hname]
  exact parentOf_concat hstack

/-- The laws of canonical paths: the answer is canonical and canonicalises to itself, it stands for the path it
came from before any rest, and a child of it is canonical, is its own, and leads back to it. -/
theorem canonicalise_laws (h : canonicalise p = .ok c) :
    IsCanonical c ∧ canonicalise c = .ok c ∧
    (∀ q, canonicalise (p ++ "/" ++ q) = canonicalise (c ++ "/" ++ q)) ∧
    (∀ name joined, name ≠ "." → name ≠ ".." → joinChild p name = .ok joined →
      IsCanonical joined ∧ joinChild joined ".." = .ok c) ∧
    (∀ name name' joined, name ≠ "." → name ≠ ".." → name' ≠ "." → name' ≠ ".." →
      joinChild p name = .ok joined → joinChild p name' = .ok joined → name = name') := by
  obtain ⟨-, stack, hwalk, hstack, rfl⟩ := canonicalise_spec h
  have hchild : ∀ {segment : List Char}, Plain segment → ∀ s ∈ stack ++ [segment], Plain s := by
    intro segment hsegment s hs
    rcases List.mem_append.mp hs with hs | hs
    · exact hstack s hs
    · rwa [List.mem_singleton.mp hs]
  refine ⟨isCanonical_text hstack, canonicalise_text hstack, canonicalise_append h, ?_, ?_⟩
  · intro name joined hdot hdots hjoin
    obtain ⟨hplain, rfl⟩ := joinChild_spec hdot hdots hjoin hwalk hstack
    exact ⟨isCanonical_text (hchild hplain), joinChild_dots (hchild hplain)⟩
  · intro name name' joined hdot hdots hdot' hdots' hjoin hjoin'
    obtain ⟨hplain, rfl⟩ := joinChild_spec hdot hdots hjoin hwalk hstack
    obtain ⟨hplain', heq⟩ := joinChild_spec hdot' hdots' hjoin' hwalk hstack
    have hsegments := text_inj (hchild hplain) (hchild hplain') heq
    exact String.toList_injective (List.append_cancel_left hsegments |> List.singleton_inj.mp)

theorem canonicalise_laws_sample : canonicalise "//a/./x/..//b/" = .ok "/a/b" ∧ IsCanonical "/a/b" :=
  ⟨by decide, (canonicalise_laws (p := "//a/./x/..//b/") (by decide)).1⟩

end PathNorm

end Pcloud

import Mathlib.Data.List.TakeWhile
import Mathlib.Tactic.Common
import ProseMath.Path
import ProseMath.Proofs.Text.Separator

/-!
# Cleaned paths

A cleaned path goes up some levels and then only down. The directories on the way to it are its
beginnings, element by element.

* `isClean_elements`: what is left of a path when it is cleaned.
* `significant_clean`: the elements of a cleaned path can be read off it.
* `clean_eq_clean_iff`: when two paths are cleaned to the same.
* `prefix_of_mem_ancestors_directory`: the directories on the way to a cleaned path.
* `mem_of_mem_clean`: the characters of a cleaned path.
* `join_directory_eq_clean_iff`: names in the directory of a path.
* `extension_suffix`: extensions.
-/

namespace ProseMath.Path

/-! ## Elements between slashes -/

theorem not_mem_of_mem_splitOn {p part : Text} (h : part ∈ p.splitOn '/') : '/' ∉ part := by
  induction p generalizing part with
  | nil =>
    rw [List.splitOn_nil, List.mem_singleton] at h
    simp [h]
  | cons c p ih =>
    rw [List.splitOn_cons_eq_if_modifyHead] at h
    obtain ⟨first, rest, hSplit⟩ := List.exists_cons_of_ne_nil (List.splitOn_ne_nil '/' p)
    split_ifs at h with hSlash
    · rcases List.mem_cons.mp h with rfl | h
      · exact List.not_mem_nil
      · exact ih h
    · rw [hSplit, List.modifyHead_cons] at h
      rcases List.mem_cons.mp h with rfl | h
      · have hFirst : '/' ∉ first := ih (hSplit ▸ List.mem_cons_self)
        have hc : c ≠ '/' := by simpa using hSlash
        simp [hc.symm, hFirst]
      · exact ih (hSplit ▸ List.mem_cons_of_mem first h)

theorem isAbsolute_iff {p : Text} (h : p ≠ []) :
    isAbsolute p ↔ (p.splitOn '/').head? = some [] := by
  obtain ⟨c, p, rfl⟩ := List.exists_cons_of_ne_nil h
  obtain ⟨first, rest, hSplit⟩ := List.exists_cons_of_ne_nil (List.splitOn_ne_nil '/' p)
  rw [isAbsolute, List.splitOn_cons_eq_if_modifyHead, hSplit]
  by_cases hc : c = '/' <;> simp [hc]

/-- What stands up to the last slash, and what stands behind it. -/
theorem upToLast_cases (p : Text) :
    ('/' ∉ p ∧ upToLast p = []) ∨
      ∃ a b, p = a ++ '/' :: b ∧ '/' ∉ b ∧ upToLast p = a ++ ['/'] := by
  by_cases hSlash : '/' ∈ p
  · obtain ⟨b, a, hReverse, hb⟩ := List.eq_append_cons_of_mem (List.mem_reverse.mpr hSlash)
    have hDrop : p.reverse.dropWhile (· ≠ '/') = '/' :: a := by
      rw [hReverse, List.dropWhile_append_of_pos fun c hc => by
        simpa using fun h : c = '/' => hb (h ▸ hc)]
      simp
    refine Or.inr ⟨a.reverse, b.reverse, ?_, by simpa using hb, ?_⟩
    · simpa using congrArg List.reverse hReverse
    · rw [upToLast, hDrop, List.reverse_cons]
  · have hDrop : p.reverse.dropWhile (· ≠ '/') = [] := by
      rw [List.dropWhile_eq_nil_iff]
      rintro c hc
      simpa using fun h : c = '/' => hSlash (h ▸ List.mem_reverse.mp hc)
    exact Or.inl ⟨hSlash, by rw [upToLast, hDrop, List.reverse_nil]⟩

theorem splitOn_upToLast (p : Text) :
    (upToLast p).splitOn '/' = (p.splitOn '/').dropLast ++ [[]] := by
  rcases upToLast_cases p with ⟨hSlash, hLast⟩ | ⟨a, b, rfl, hb, hLast⟩
  · rw [hLast, List.splitOn_eq_singleton hSlash]
    rfl
  · rw [hLast, List.splitOn_append_cons_self, List.splitOn_append_cons_self,
      List.splitOn_eq_singleton hb, List.dropLast_concat]
    rfl

theorem isAbsolute_upToLast (p : Text) : isAbsolute (upToLast p) = isAbsolute p := by
  rcases upToLast_cases p with ⟨hSlash, hLast⟩ | ⟨a, b, rfl, _, hLast⟩
  · have hHead : p.head? ≠ some '/' := fun h => hSlash (List.mem_of_mem_head? h)
    simp [hLast, isAbsolute, hHead]
  · rw [hLast, isAbsolute, isAbsolute]
    cases a <;> rfl

/-! ## Elements that lead somewhere -/

/-- The elements that lead away from where one is. -/
def significant (parts : List Text) : List Text :=
  parts.filter fun part => part ≠ [] ∧ part ≠ here

theorem significant_append (a b : List Text) :
    significant (a ++ b) = significant a ++ significant b := List.filter_append ..

/-- The name of something in a directory. -/
structure IsName (element : Text) : Prop where
  not_nil : element ≠ []
  not_here : element ≠ here
  not_above : element ≠ above
  not_slash : '/' ∉ element

/-- Elements that go up and then down; from the root nothing goes up. -/
def IsClean (absolute : Bool) (elements : List Text) : Prop :=
  ∃ levels names, elements = List.replicate levels above ++ names ∧
    (∀ name ∈ names, IsName name) ∧ (absolute → levels = 0)

theorem pushElement_of_stay {absolute : Bool} {stack : List Text} {element : Text}
    (h : element = [] ∨ element = here) : pushElement absolute stack element = stack := by
  unfold pushElement
  exact if_pos h

theorem pushElement_of_ne {absolute : Bool} {stack : List Text} {element : Text}
    (hStay : ¬(element = [] ∨ element = here)) (hUp : element ≠ above) :
    pushElement absolute stack element = element :: stack := by
  unfold pushElement
  rw [if_neg hStay, if_neg hUp]

theorem pushElement_of_isName {absolute : Bool} {stack : List Text} {element : Text}
    (h : IsName element) : pushElement absolute stack element = element :: stack :=
  pushElement_of_ne (by simp [h.not_nil, h.not_here]) h.not_above

theorem pushElement_above_cons (absolute : Bool) (last : Text) (stack : List Text) :
    pushElement absolute (last :: stack) above =
      if last = above then above :: last :: stack else stack := rfl

theorem foldl_push_above (levels : Nat) :
    (List.replicate levels above).foldl (pushElement false) [] = List.replicate levels above := by
  induction levels with
  | zero => rfl
  | succ levels ih =>
    rw [List.replicate_succ', List.foldl_append, ih, List.foldl_cons, List.foldl_nil]
    cases levels with
    | zero => rfl
    | succ levels =>
      rw [List.replicate_succ, pushElement_above_cons, if_pos rfl, ← List.replicate_succ,
        ← List.replicate_succ, ← List.replicate_succ']

theorem foldl_push_names {absolute : Bool} {names : List Text} (h : ∀ name ∈ names, IsName name)
    (stack : List Text) :
    names.foldl (pushElement absolute) stack = names.reverse ++ stack := by
  induction names generalizing stack with
  | nil => rfl
  | cons name names ih =>
    rw [List.forall_mem_cons] at h
    rw [List.foldl_cons, pushElement_of_isName h.1, ih h.2, List.reverse_cons, List.append_assoc]
    rfl

namespace IsClean

variable {absolute : Bool} {elements : List Text}

theorem nil : IsClean absolute [] := ⟨0, [], rfl, by simp, fun _ => rfl⟩

theorem cases_of_mem (h : IsClean absolute elements) {element : Text}
    (hElement : element ∈ elements) : element = above ∨ IsName element := by
  obtain ⟨levels, names, rfl, hNames, _⟩ := h
  exact (List.mem_append.mp hElement).imp List.eq_of_mem_replicate (hNames element)

theorem not_slash (h : IsClean absolute elements) : ∀ element ∈ elements, '/' ∉ element := by
  intro element hElement
  rcases h.cases_of_mem hElement with rfl | hName
  · decide
  · exact hName.not_slash

theorem significant_eq (h : IsClean absolute elements) : significant elements = elements := by
  rw [significant, List.filter_eq_self]
  intro element hElement
  rcases h.cases_of_mem hElement with rfl | hName
  · decide
  · simpa using ⟨hName.not_nil, hName.not_here⟩

theorem not_nil (h : IsClean absolute elements) : [] ∉ elements := by
  rw [← h.significant_eq, significant, List.mem_filter]
  simp

theorem of_isPrefix {first : List Text} (h : IsClean absolute elements)
    (hFirst : first <+: elements) : IsClean absolute first := by
  obtain ⟨levels, names, rfl, hNames, hRoot⟩ := h
  rcases List.prefix_or_prefix_of_prefix hFirst (List.prefix_append _ names) with hUp | hDown
  · obtain ⟨hLength, hUp⟩ := List.prefix_replicate_iff.mp hUp
    refine ⟨first.length, [], by rwa [List.append_nil], by simp, fun hAbsolute => ?_⟩
    have hLevels := hRoot hAbsolute
    omega
  · obtain ⟨some, rfl⟩ := hDown
    have hSome : some <+: names := (List.prefix_append_right_inj _).mp hFirst
    exact ⟨levels, some, rfl, fun name hName => hNames name (hSome.subset hName), hRoot⟩

/-- One more element keeps a stack of elements clean. -/
theorem push {stack : List Text} (h : IsClean absolute stack.reverse) {element : Text}
    (hSlash : '/' ∉ element) : IsClean absolute (pushElement absolute stack element).reverse := by
  by_cases hStay : element = [] ∨ element = here
  · rwa [pushElement_of_stay hStay]
  obtain ⟨levels, names, hStack, hNames, hRoot⟩ := h
  by_cases hUp : element = above
  · obtain ⟨down, rfl⟩ : ∃ down : List Text, names = down.reverse :=
      ⟨names.reverse, (List.reverse_reverse names).symm⟩
    have hStack : stack = down ++ List.replicate levels above := by
      simpa using congrArg List.reverse hStack
    subst hStack hUp
    -- a step up takes the last name away; without names it is one step more
    rcases down with _ | ⟨name, rest⟩
    · rcases levels with _ | levels
      · cases absolute with
        | true => exact nil
        | false => exact ⟨1, [], rfl, by simp, by simp⟩
      · refine ⟨levels + 2, [], ?_, by simp, fun hAbsolute => nomatch hRoot hAbsolute⟩
        rw [List.nil_append, List.replicate_succ, pushElement_above_cons, if_pos rfl,
          ← List.replicate_succ, ← List.replicate_succ, List.reverse_replicate, List.append_nil]
    · have hName : name ≠ above := (hNames name (by simp)).not_above
      refine ⟨levels, rest.reverse, ?_, fun other hOther => hNames other (by simp_all), hRoot⟩
      rw [List.cons_append, pushElement_above_cons, if_neg hName]
      simp
  · have hElement : IsName element :=
      ⟨fun h => hStay (Or.inl h), fun h => hStay (Or.inr h), hUp, hSlash⟩
    refine ⟨levels, names ++ [element], ?_, ?_, hRoot⟩
    · rw [pushElement_of_isName hElement, List.reverse_cons, hStack, List.append_assoc]
    · intro name hName
      rcases List.mem_append.mp hName with hName | hName
      · exact hNames name hName
      · rwa [List.mem_singleton.mp hName]

theorem pushAll {stack : List Text} (h : IsClean absolute stack.reverse) {parts : List Text}
    (hParts : ∀ part ∈ parts, '/' ∉ part) :
    IsClean absolute (parts.foldl (pushElement absolute) stack).reverse := by
  induction parts generalizing stack with
  | nil => exact h
  | cons part parts ih =>
    rw [List.forall_mem_cons] at hParts
    exact ih (h.push hParts.1) hParts.2

/-- Clean elements stay as they are. -/
theorem foldl_push (h : IsClean absolute elements) :
    elements.foldl (pushElement absolute) [] = elements.reverse := by
  obtain ⟨levels, names, rfl, hNames, hRoot⟩ := h
  have hUp : (List.replicate levels above).foldl (pushElement absolute) [] =
      List.replicate levels above := by
    cases absolute with
    | true =>
      rw [hRoot rfl]
      rfl
    | false => exact foldl_push_above levels
  rw [List.foldl_append, hUp, foldl_push_names hNames, List.reverse_append, List.reverse_replicate]

end IsClean

/-! ## Cleaning -/

theorem isClean_elements (p : Text) : IsClean (isAbsolute p) (elements p) :=
  IsClean.nil.pushAll fun _ => not_mem_of_mem_splitOn

theorem foldl_pushElement_significant (absolute : Bool) (parts stack : List Text) :
    (significant parts).foldl (pushElement absolute) stack =
      parts.foldl (pushElement absolute) stack := by
  rw [significant, List.foldl_filter]
  congr 1
  funext stack part
  split_ifs with hPart
  · rfl
  · rw [pushElement_of_stay (by simpa [or_iff_not_imp_left] using hPart)]

/-- A path that is clean already. -/
theorem elements_of_isClean {p : Text}
    (h : IsClean (isAbsolute p) (significant (p.splitOn '/'))) :
    elements p = significant (p.splitOn '/') := by
  rw [elements, ← foldl_pushElement_significant, h.foldl_push, List.reverse_reverse]

theorem significant_intercalate {absolute : Bool} {elements : List Text}
    (h : IsClean absolute elements) :
    significant ((['/'].intercalate elements).splitOn '/') = elements := by
  by_cases hNil : elements = []
  · rw [hNil]
    rfl
  · rw [List.splitOn_intercalate '/' h.not_slash hNil, h.significant_eq]

theorem significant_clean (p : Text) : significant ((clean p).splitOn '/') = elements p := by
  have hBody := significant_intercalate (isClean_elements p)
  rw [clean]
  split_ifs with hAbsolute hEmpty
  · rw [List.splitOn_cons_eq_if_modifyHead, if_pos (beq_self_eq_true '/')]
    exact hBody
  · rw [List.isEmpty_iff.mp hEmpty] at hBody
    rw [← hBody]
    rfl
  · exact hBody

theorem clean_ne_nil (p : Text) : clean p ≠ [] := by
  rw [clean]
  split_ifs with hAbsolute hEmpty
  · exact List.cons_ne_nil _ _
  · decide
  · exact fun h => hEmpty (List.isEmpty_iff.mpr h)

theorem isAbsolute_clean (p : Text) : isAbsolute (clean p) = isAbsolute p := by
  have hClean := isClean_elements p
  rw [clean]
  split_ifs with hAbsolute hEmpty
  · rw [hAbsolute]
    rfl
  · rw [Bool.eq_false_iff.mpr hAbsolute]
    rfl
  · have hNil : elements p ≠ [] := fun h => hEmpty (by rw [h]; rfl)
    have hHead : (elements p).head? ≠ some [] := fun h => hClean.not_nil (List.mem_of_mem_head? h)
    rw [Bool.eq_iff_iff, isAbsolute_iff (fun h => hEmpty (List.isEmpty_iff.mpr h)),
      List.splitOn_intercalate '/' hClean.not_slash hNil]
    exact iff_of_false hHead hAbsolute

theorem splitOn_clean {p : Text} (h : elements p ≠ []) :
    (clean p).splitOn '/' = (if isAbsolute p then [[]] else []) ++ elements p := by
  have hClean := isClean_elements p
  have hBody : (['/'].intercalate (elements p)).splitOn '/' = elements p :=
    List.splitOn_intercalate '/' hClean.not_slash h
  rw [clean]
  split_ifs with hAbsolute hEmpty
  · rw [List.splitOn_cons_eq_if_modifyHead, if_pos (beq_self_eq_true '/'), hBody]
    rfl
  · rw [List.isEmpty_iff.mp hEmpty] at hBody
    exact absurd (hBody ▸ List.mem_singleton_self []) hClean.not_nil
  · rw [hBody]
    rfl

theorem elements_clean (p : Text) : elements (clean p) = elements p := by
  have hClean : IsClean (isAbsolute (clean p)) (significant ((clean p).splitOn '/')) := by
    rw [isAbsolute_clean, significant_clean]
    exact isClean_elements p
  rw [elements_of_isClean hClean, significant_clean]

/-- A cleaned path is known by where it starts and by its elements. -/
theorem clean_eq_clean_iff {p q : Text} :
    clean p = clean q ↔ isAbsolute p = isAbsolute q ∧ elements p = elements q := by
  constructor
  · intro h
    rw [← isAbsolute_clean p, ← elements_clean p, h, isAbsolute_clean, elements_clean]
    exact ⟨rfl, rfl⟩
  · rintro ⟨hRoot, hElements⟩
    rw [clean, clean, hRoot, hElements]

theorem isAbsolute_append {p : Text} (h : p ≠ []) (q : Text) :
    isAbsolute (p ++ q) = isAbsolute p := by
  obtain ⟨c, p, rfl⟩ := List.exists_cons_of_ne_nil h
  rfl

/-! ## The directories on the way -/

theorem exists_take_of_mem_ancestors {p q : Text} (h : q ∈ ancestors p) :
    q ≠ [] ∧ ∃ n, q.splitOn '/' = (p.splitOn '/').take (n + 1) := by
  rw [ancestors, List.mem_filter] at h
  obtain ⟨hMem, hEmpty⟩ := h
  obtain ⟨n, _, rfl⟩ := List.mem_map.mp hMem
  refine ⟨by simpa using hEmpty, n, List.splitOn_intercalate '/' ?_ ?_⟩
  · exact fun part hPart => not_mem_of_mem_splitOn (List.mem_of_mem_take hPart)
  · simp

theorem isAbsolute_of_mem_ancestors {p q : Text} (hp : p ≠ []) (h : q ∈ ancestors p) :
    isAbsolute q = isAbsolute p := by
  obtain ⟨hq, n, hSplit⟩ := exists_take_of_mem_ancestors h
  rw [Bool.eq_iff_iff, isAbsolute_iff hq, isAbsolute_iff hp, hSplit, List.head?_take]
  rfl

/-- Whatever is on the way to the directory of a cleaned path is a beginning of that path. -/
theorem prefix_of_mem_ancestors_directory {p q : Text} (h : q ∈ ancestors (directory (clean p))) :
    isAbsolute q = isAbsolute (clean p) ∧
      significant (q.splitOn '/') <+: significant ((clean p).splitOn '/') := by
  obtain ⟨_, n, hSplit⟩ := exists_take_of_mem_ancestors h
  have hRoot : isAbsolute (upToLast (clean p)) = isAbsolute (clean p) := isAbsolute_upToLast _
  have hBefore : significant ((upToLast (clean p)).splitOn '/') <+:
      significant ((clean p).splitOn '/') := by
    have hSlash : significant [[]] = [] := rfl
    rw [splitOn_upToLast, significant_append, hSlash, List.append_nil]
    exact List.IsPrefix.filter _ <| List.dropLast_prefix _
  have hClean : IsClean (isAbsolute (upToLast (clean p)))
      (significant ((upToLast (clean p)).splitOn '/')) := by
    rw [hRoot, isAbsolute_clean]
    exact (significant_clean p ▸ isClean_elements p).of_isPrefix hBefore
  constructor
  · have hDirectory : directory (clean p) ≠ [] := clean_ne_nil _
    rw [isAbsolute_of_mem_ancestors hDirectory h, directory, isAbsolute_clean, hRoot]
  · have hFirst : significant (q.splitOn '/') <+:
        significant ((directory (clean p)).splitOn '/') := by
      rw [hSplit]
      exact List.IsPrefix.filter _ <| List.take_prefix _ _
    rw [directory, significant_clean, elements_of_isClean hClean] at hFirst
    exact hFirst.trans hBefore

/-! ## Characters -/

theorem pushElement_subset (absolute : Bool) (stack : List Text) (element : Text) :
    pushElement absolute stack element ⊆ element :: stack := by
  intro other hOther
  by_cases hStay : element = [] ∨ element = here
  · rw [pushElement_of_stay hStay] at hOther
    exact List.mem_cons_of_mem _ hOther
  by_cases hUp : element = above
  · subst hUp
    cases stack with
    | nil => cases absolute with
      | true => cases hOther
      | false => exact hOther
    | cons last stack =>
      rw [pushElement_above_cons] at hOther
      split_ifs at hOther
      · exact hOther
      · exact List.mem_cons_of_mem _ (List.mem_cons_of_mem _ hOther)
  · rwa [pushElement_of_ne hStay hUp] at hOther

theorem foldl_push_subset (absolute : Bool) (parts stack : List Text) :
    parts.foldl (pushElement absolute) stack ⊆ parts ++ stack := by
  induction parts generalizing stack with
  | nil => exact List.Subset.refl _
  | cons part parts ih =>
    intro element hElement
    rcases List.mem_append.mp (ih _ hElement) with hPart | hStack
    · exact List.mem_append_left _ (List.mem_cons_of_mem _ hPart)
    · rcases List.mem_cons.mp (pushElement_subset absolute stack part hStack) with rfl | hStack
      · exact List.mem_append_left _ List.mem_cons_self
      · exact List.mem_append_right _ hStack

/-- Cleaning adds no characters to a path but slashes and points. -/
theorem mem_of_mem_clean {p : Text} {c : Char} (h : c ∈ clean p) : c ∈ p ∨ c = '/' ∨ c = '.' := by
  have hBody (hc : c ∈ ['/'].intercalate (elements p)) : c ∈ p ∨ c = '/' ∨ c = '.' := by
    rcases Text.mem_of_mem_intercalate hc with hSlash | ⟨element, hElement, hc⟩
    · exact Or.inr (Or.inl (List.mem_singleton.mp hSlash))
    · have hPart := foldl_push_subset _ _ _ (List.mem_reverse.mp hElement)
      rw [List.append_nil] at hPart
      exact Or.inl (Text.mem_of_mem_splitOn hPart hc)
  rw [clean] at h
  split_ifs at h
  · rcases List.mem_cons.mp h with hSlash | h
    · exact Or.inr (Or.inl hSlash)
    · exact hBody h
  · exact Or.inr (Or.inr (List.mem_singleton.mp h))
  · exact hBody h

theorem mem_of_mem_join {p q : Text} {c : Char} (h : c ∈ join p q) :
    c ∈ p ∨ c ∈ q ∨ c = '/' ∨ c = '.' := by
  rw [join] at h
  split_ifs at h
  · cases h
  · exact Or.inr (mem_of_mem_clean h)
  · rcases mem_of_mem_clean h with hc | hc
    · rw [List.mem_append, List.mem_cons] at hc
      rcases hc with hp | hSlash | hq
      · exact Or.inl hp
      · exact Or.inr (Or.inr (Or.inl hSlash))
      · exact Or.inr (Or.inl hq)
    · exact Or.inr (Or.inr hc)

/-! ## The last element -/

theorem upToLast_append_lastElement (p : Text) : upToLast p ++ lastElement p = p := by
  rw [upToLast, lastElement, ← List.reverse_append, List.takeWhile_append_dropWhile,
    List.reverse_reverse]

theorem splitOn_eq_concat (p : Text) :
    p.splitOn '/' = (p.splitOn '/').dropLast ++ [lastElement p] := by
  have hWhole := upToLast_append_lastElement p
  rcases upToLast_cases p with ⟨hSlash, hLast⟩ | ⟨a, b, rfl, hb, hLast⟩
  · rw [hLast, List.nil_append] at hWhole
    rw [List.splitOn_eq_singleton hSlash, hWhole]
    rfl
  · rw [hLast, List.append_assoc, List.singleton_append, List.append_right_inj,
      List.cons.injEq] at hWhole
    rw [List.splitOn_append_cons_self, List.splitOn_eq_singleton hb, List.dropLast_concat, hWhole.2]

/-- The last element is put behind what stands up to the last slash. -/
theorem elements_eq_push (p : Text) :
    elements p =
      (pushElement (isAbsolute p) (elements (upToLast p)).reverse (lastElement p)).reverse := by
  have hBefore : ((upToLast p).splitOn '/').foldl (pushElement (isAbsolute p)) [] =
      (p.splitOn '/').dropLast.foldl (pushElement (isAbsolute p)) [] := by
    rw [splitOn_upToLast, List.foldl_append, List.foldl_cons, List.foldl_nil,
      pushElement_of_stay (Or.inl rfl)]
  rw [elements, elements, isAbsolute_upToLast, hBefore, List.reverse_reverse]
  conv_lhs => rw [splitOn_eq_concat, List.foldl_append, List.foldl_cons, List.foldl_nil]

theorem elements_of_isName {p : Text} (h : IsName (lastElement p)) :
    elements p = elements (upToLast p) ++ [lastElement p] := by
  rw [elements_eq_push, pushElement_of_isName h, List.reverse_cons, List.reverse_reverse]

/-- Cleaning a path does not change its directory. -/
theorem directory_clean {p : Text} (h : IsName (lastElement p)) :
    directory (clean p) = directory p := by
  have hElements := elements_of_isName h
  have hSome : elements p ≠ [] := by
    rw [hElements]
    exact List.concat_ne_nil _ _
  have hClean : IsClean (isAbsolute (upToLast p)) (elements (upToLast p)) := isClean_elements _
  have hBefore : significant ((upToLast (clean p)).splitOn '/') = elements (upToLast p) := by
    have hStart : significant (if isAbsolute p then [[]] else []) = [] := by split_ifs <;> rfl
    have hEnd : significant [[]] = [] := rfl
    rw [splitOn_upToLast, splitOn_clean hSome, hElements, ← List.append_assoc, List.dropLast_concat,
      significant_append, significant_append, hStart, hEnd, hClean.significant_eq, List.nil_append,
      List.append_nil]
  have hRoot : isAbsolute (upToLast (clean p)) = isAbsolute (upToLast p) := by
    rw [isAbsolute_upToLast, isAbsolute_clean, isAbsolute_upToLast]
  rw [directory, directory, clean_eq_clean_iff]
  refine ⟨hRoot, ?_⟩
  rw [elements_of_isClean (by rwa [hBefore, hRoot]), hBefore]

/-- A name put behind a cleaned path. -/
theorem elements_clean_append (p : Text) {name : Text} (h : '/' ∉ name) :
    elements (clean p ++ '/' :: name) =
      (pushElement (isAbsolute p) (elements p).reverse name).reverse := by
  have hClean : ((clean p).splitOn '/').foldl (pushElement (isAbsolute (clean p))) [] =
      (elements p).reverse := by
    rw [← elements_clean p, elements, List.reverse_reverse]
  rw [elements, isAbsolute_append (clean_ne_nil p), List.splitOn_append_cons_self,
    List.splitOn_eq_singleton h, List.foldl_append, hClean, isAbsolute_clean, List.foldl_cons,
    List.foldl_nil]

/-- Only a name itself, put behind elements, gives them and the name. -/
theorem pushElement_eq_cons_iff {absolute : Bool} {stack : List Text} {name last : Text}
    (h : IsName last) : pushElement absolute stack name = last :: stack ↔ name = last := by
  refine ⟨fun hPush => ?_, fun hSame => hSame ▸ pushElement_of_isName (hSame ▸ h)⟩
  have hLength := congrArg List.length hPush
  by_cases hStay : name = [] ∨ name = here
  · rw [pushElement_of_stay hStay, List.length_cons] at hLength
    omega
  by_cases hUp : name = above
  · subst hUp
    -- a step up makes the stack shorter, or it puts on what is no name
    cases stack with
    | nil => cases absolute with
      | true => cases hLength
      | false => exact (List.cons.inj hPush).1
    | cons top stack =>
      rw [pushElement_above_cons] at hPush hLength
      split_ifs at hPush hLength
      · exact (List.cons.inj hPush).1
      · simp only [List.length_cons] at hLength
        omega
  · rw [pushElement_of_ne hStay hUp] at hPush
    exact (List.cons.inj hPush).1

/-- A name in the directory of a path gives the path if it is the last element. -/
theorem join_directory_eq_clean_iff {p name : Text} (hLast : IsName (lastElement p))
    (hName : '/' ∉ name) : join (directory p) name = clean p ↔ name = lastElement p := by
  have hSome : directory p ≠ [] := clean_ne_nil _
  have hRoot : isAbsolute (directory p ++ '/' :: name) = isAbsolute p := by
    rw [isAbsolute_append hSome, directory, isAbsolute_clean, isAbsolute_upToLast]
  rw [join, if_neg (by rwa [List.isEmpty_iff]), clean_eq_clean_iff, hRoot, directory,
    elements_clean_append _ hName, isAbsolute_upToLast, elements_eq_push p,
    pushElement_of_isName hLast, List.reverse_inj, pushElement_eq_cons_iff hLast]
  exact and_iff_right rfl

/-! ## Extensions -/

theorem base_eq_lastElement {p : Text} (h : lastElement p ≠ []) : base p = lastElement p := by
  obtain ⟨q, rfl⟩ : ∃ q : Text, p = q.reverse := ⟨p.reverse, p.reverse_reverse.symm⟩
  cases q with
  | nil => exact absurd rfl h
  | cons c q =>
    have hEnd : c ≠ '/' := by
      rintro rfl
      rw [lastElement, List.reverse_reverse, List.takeWhile_cons_of_neg (by simp)] at h
      exact h rfl
    rw [base, if_neg (by simp), List.reverse_reverse,
      List.dropWhile_cons_of_neg (by simpa using hEnd), if_neg (by simp)]

theorem dropEnding_append {ending t : Text} (h : ending <:+ t) :
    dropEnding ending t ++ ending = t := by
  obtain ⟨front, rfl⟩ := h
  rw [dropEnding, if_pos (List.isSuffixOf_iff_suffix.mpr (List.suffix_append front ending)),
    List.length_append, Nat.add_sub_cancel, List.take_left]

/-- The extension is the end of the last element. -/
theorem extension_suffix (p : Text) : extension p <:+ lastElement p := by
  rw [extension]
  split_ifs with hPoint
  · obtain ⟨after, before, hName, hAfter⟩ :=
      List.eq_append_cons_of_mem (List.contains_iff_mem.mp hPoint)
    refine ⟨before.reverse, ?_⟩
    have hTake : (lastElement p).reverse.takeWhile (· ≠ '.') = after := by
      rw [hName, List.takeWhile_append_of_pos fun c hc => by
        simpa using fun h : c = '.' => hAfter (h ▸ hc)]
      simp
    rw [hTake]
    simpa using congrArg List.reverse hName.symm
  · exact List.nil_suffix

end ProseMath.Path

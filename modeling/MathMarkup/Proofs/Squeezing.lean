import MathMarkup.Proofs.Parser.Fitting
import MathMarkup.Proofs.Token
import MathMarkup.Proofs.Tree

/-!
# Squeezed spaces

A text is squeezed if each maximal run of spaces in it is replaced by one plain space, and a tree if
this is done inside its `mtext` elements. Squeezing changes no answer that the parser gets from a
node: a parenthesis has no spaces, and whatever is squeezed to one has none either.
-/

namespace MathMarkup

/-! ## Texts -/

namespace Text

/-- The text with each maximal run of spaces replaced by one plain space. -/
def squeezed : Text → Text
  | [] => []
  | c :: rest =>
    if c.isSpace then .scalar ' ' :: squeezed (rest.dropWhile CodePoint.isSpace)
    else c :: squeezed rest
termination_by t => t.length
decreasing_by
  · exact Nat.lt_succ_of_le (List.dropWhile_sublist _).length_le
  · exact Nat.lt_succ_self _

/-- Each space is a plain one, and no two stand next to each other. -/
structure SinglySpaced (t : Text) : Prop where
  plain : ∀ c ∈ t, c.isSpace = true → c = .scalar ' '
  apart : t.IsChain fun c d => ¬(c.isSpace = true ∧ d.isSpace = true)

variable {t p : Text}

theorem squeezed_nil : squeezed [] = [] := by
  rw [squeezed]

theorem squeezed_cons (c : CodePoint) (rest : Text) : squeezed (c :: rest) =
    if c.isSpace then .scalar ' ' :: squeezed (rest.dropWhile CodePoint.isSpace)
    else c :: squeezed rest := by
  rw [squeezed]

/-- Inside a run the parser has written its space already, and passes over the rest of it. -/
theorem squeezeSpaces_eq (t : Text) : Parser.squeezeSpaces false t = t.squeezed ∧
    Parser.squeezeSpaces true t = squeezed (t.dropWhile CodePoint.isSpace) := by
  induction t with
  | nil => exact ⟨squeezed_nil.symm, squeezed_nil.symm⟩
  | cons c rest ih =>
    obtain ⟨hplain, hrun⟩ := ih
    cases hc : c.isSpace with
    | true => simp [Parser.squeezeSpaces, squeezed_cons, hc, hrun]
    | false => simp [Parser.squeezeSpaces, squeezed_cons, hc, hplain]

theorem singlySpaced_of_no_space (h : ∀ c ∈ t, c.isSpace = false) : SinglySpaced t where
  plain c hc hspace := by
    rw [h c hc] at hspace
    cases hspace
  apart := by
    refine (List.pairwise_of_forall_mem_list fun c hc d _ hspaces => ?_).isChain
    simp [h c hc] at hspaces

theorem head?_squeezed (h : ∀ c ∈ t.head?, c.isSpace = false) :
    ∀ c ∈ t.squeezed.head?, c.isSpace = false := by
  cases t with
  | nil => simp [squeezed_nil]
  | cons d rest =>
    have hd : d.isSpace = false := h d rfl
    simp [squeezed_cons, hd]

theorem singlySpaced_squeezed (t : Text) : t.squeezed.SinglySpaced := by
  fun_induction squeezed t with
  | case1 => exact ⟨by simp, .nil⟩
  | case2 c rest hc ih =>
    have hhead := head?_squeezed (head?_dropWhile_eq_false CodePoint.isSpace rest)
    refine ⟨fun d hd hspace => ?_, ?_⟩
    · rcases List.mem_cons.mp hd with rfl | hd
      · rfl
      · exact ih.plain d hd hspace
    · refine List.isChain_cons.mpr ⟨fun d hd => ?_, ih.apart⟩
      simp [hhead d hd]
  | case3 c rest hc ih =>
    refine ⟨fun d hd hspace => ?_, ?_⟩
    · rcases List.mem_cons.mp hd with rfl | hd
      · exact absurd hspace hc
      · exact ih.plain d hd hspace
    · exact List.isChain_cons.mpr ⟨fun d _ hspaces => hc hspaces.1, ih.apart⟩

/-- Where spaces are single already there is nothing to squeeze. -/
theorem SinglySpaced.squeezed_eq (h : t.SinglySpaced) : t.squeezed = t := by
  induction t with
  | nil => exact squeezed_nil
  | cons c rest ih =>
    obtain ⟨hplain, hchain⟩ := h
    obtain ⟨hnext, hrest⟩ := List.isChain_cons.mp hchain
    have htail := ih ⟨fun d hd => hplain d (List.mem_cons_of_mem c hd), hrest⟩
    rw [squeezed_cons]
    split
    · next hc =>
      have hdrop : rest.dropWhile CodePoint.isSpace = rest := by
        cases rest with
        | nil => rfl
        | cons d rest =>
          have hd : ¬d.isSpace = true := fun hd => hnext d rfl ⟨hc, hd⟩
          exact List.dropWhile_cons_of_neg hd
      rw [hdrop, htail, hplain c List.mem_cons_self hc]
    · rw [htail]

theorem squeezed_squeezed (t : Text) : t.squeezed.squeezed = t.squeezed :=
  (singlySpaced_squeezed t).squeezed_eq

/-! ### What squeezing leaves alone -/

theorem any_isSpace_squeezed (t : Text) :
    t.squeezed.any CodePoint.isSpace = t.any CodePoint.isSpace := by
  fun_induction squeezed t with
  | case1 => rfl
  | case2 c rest hc ih =>
    have hplain : (CodePoint.scalar ' ').isSpace = true := by decide
    simp [hc, hplain]
  | case3 c rest hc ih => simp [hc, ih]

theorem filter_squeezeSpaces (inRun : Bool) (t : Text) :
    (Parser.squeezeSpaces inRun t).filter (!·.isSpace) = t.filter (!·.isSpace) := by
  have hplain : (CodePoint.scalar ' ').isSpace = true := by decide
  fun_induction Parser.squeezeSpaces inRun t <;> simp [*]

theorem filter_squeezed (t : Text) : t.squeezed.filter (!·.isSpace) = t.filter (!·.isSpace) := by
  rw [← (squeezeSpaces_eq t).1]
  exact filter_squeezeSpaces false t

/-- A text without spaces is known from what squeezing leaves alone. -/
theorem eq_iff_of_no_space (hp : ∀ c ∈ p, c.isSpace = false) : t = p ↔
    t.filter (!·.isSpace) = p ∧ t.any CodePoint.isSpace = false := by
  constructor
  · rintro rfl
    exact ⟨List.filter_eq_self.mpr fun c hc => by simp [hp c hc],
      List.any_eq_false.mpr fun c hc => by simp [hp c hc]⟩
  · rintro ⟨rfl, hany⟩
    refine (List.filter_eq_self.mpr fun c hc => ?_).symm
    simpa using List.any_eq_false.mp hany c hc

end Text

/-! ## Nodes -/

namespace Node

mutual

/-- The node with its spaces squeezed inside `mtext`. The flag says that it stands there itself. -/
def squeezedIn : (inText : Bool) → Node → Node
  | inText, .text content => .text (if inText then content.squeezed else content)
  | _, .element name attributes children =>
    .element name attributes (squeezedAllIn (decide (name = "mtext")) children)

/-- Nodes with their spaces squeezed inside `mtext`. -/
def squeezedAllIn : (inText : Bool) → List Node → List Node
  | _, [] => []
  | inText, c :: rest => c.squeezedIn inText :: squeezedAllIn inText rest

end

/-- The tree with each maximal run of spaces replaced by one plain space in its `mtext` elements. -/
def squeezed (n : Node) : Node :=
  n.squeezedIn false

theorem squeezedAllIn_eq_map (inText : Bool) (children : List Node) :
    squeezedAllIn inText children = children.map (squeezedIn inText) := by
  induction children with
  | nil => rfl
  | cons c rest ih => rw [squeezedAllIn, ih, List.map_cons]

theorem squeezedIn_element (inText : Bool) (name : Text) (attributes : Assoc Text Text)
    (children : List Node) : (element name attributes children).squeezedIn inText =
      .element name attributes (children.map (squeezedIn (decide (name = "mtext")))) := by
  rw [squeezedIn, squeezedAllIn_eq_map]

theorem squeezedIn_textElement (inText : Bool) (content : Text) (attributes : Assoc Text Text) :
    (textElement content attributes).squeezedIn inText =
      .textElement content.squeezed attributes := by
  rw [textElement, leaf, squeezedIn_element]
  rfl

/-! ### What is asked of a node -/

theorem isEmpty_squeezed (n : Node) : n.squeezed.isEmpty = n.isEmpty := by
  cases n <;> rfl

variable {inText : Bool}

theorem hasName_squeezedIn (name : Text) (n : Node) :
    (n.squeezedIn inText).hasName name = n.hasName name := by
  cases n <;> rfl

theorem attribute?_squeezedIn (key : Text) (n : Node) :
    (n.squeezedIn inText).attribute? key = n.attribute? key := by
  cases n <;> rfl

theorem squeezedIn_setAttribute (key value : Text) (n : Node) :
    (n.setAttribute key value).squeezedIn inText =
      (n.squeezedIn inText).setAttribute key value := by
  cases n <;> rfl

theorem squeezedIn_addAttribute (key value : Text) (n : Node) :
    (n.addAttribute key value).squeezedIn inText =
      (n.squeezedIn inText).addAttribute key value := by
  cases n <;> rfl

theorem filter_innerText_squeezedIn (n : Node) :
    (n.squeezedIn inText).innerText.filter (!·.isSpace) = n.innerText.filter (!·.isSpace) := by
  induction n using inductionOn generalizing inText with
  | text content =>
    cases inText with
    | true => exact Text.filter_squeezed content
    | false => rfl
  | element name attributes children ih =>
    rw [squeezedIn_element, innerText, innerText, innerTexts_eq_flatMap, innerTexts_eq_flatMap,
      List.flatMap_map, List.filter_flatMap, List.filter_flatMap]
    exact List.flatMap_congr fun c hc => ih c hc

theorem any_innerText_squeezedIn (n : Node) :
    (n.squeezedIn inText).innerText.any CodePoint.isSpace =
      n.innerText.any CodePoint.isSpace := by
  induction n using inductionOn generalizing inText with
  | text content =>
    cases inText with
    | true => exact Text.any_isSpace_squeezed content
    | false => rfl
  | element name attributes children ih =>
    rw [squeezedIn_element, innerText, innerText, innerTexts_eq_flatMap, innerTexts_eq_flatMap,
      List.flatMap_map, List.any_flatMap, List.any_flatMap, Bool.eq_iff_iff, List.any_eq_true,
      List.any_eq_true]
    exact exists_congr fun c => and_congr_right fun hc => by rw [ih c hc]

end Node

namespace Parser

/-- Nodes that are the same once their spaces are squeezed. -/
def SameSqueezed (n n' : Node) : Prop :=
  ∀ inText, n'.squeezedIn inText = n.squeezedIn inText

theorem isParen_squeezedIn {paren : Text} (hparen : ∀ c ∈ paren, c.isSpace = false)
    (inText : Bool) (n : Node) : isParen paren (n.squeezedIn inText) = isParen paren n := by
  unfold isParen
  rw [Node.hasName_squeezedIn]
  congr 1
  rw [decide_eq_decide, Text.eq_iff_of_no_space hparen, Node.filter_innerText_squeezedIn,
    Node.any_innerText_squeezedIn, ← Text.eq_iff_of_no_space hparen]

theorem takesLimits_squeezedIn (inText : Bool) (n : Node) :
    takesLimits (n.squeezedIn inText) = takesLimits n := by
  unfold takesLimits
  rw [Node.hasName_squeezedIn, Node.attribute?_squeezedIn]

/-- The parser gets the same answers from nodes that are the same once squeezed. -/
theorem fitting_sameSqueezed : Fitting SameSqueezed where
  text _ _ := rfl
  element name attributes children children' _ hc := by
    intro inText
    have hchildren : children'.map (Node.squeezedIn (decide (name = "mtext"))) =
        children.map (Node.squeezedIn (decide (name = "mtext"))) := by
      induction hc with
      | nil => rfl
      | cons hfirst _ ih => rw [List.map_cons, List.map_cons, hfirst, ih]
    rw [Node.squeezedIn_element, Node.squeezedIn_element, hchildren]
  isEmpty {n n'} h := by
    rw [← Node.isEmpty_squeezed n', ← Node.isEmpty_squeezed n]
    exact congrArg Node.isEmpty (h false)
  hasName {n n'} h := by
    have hname := congrArg (Node.hasName "mo") (h false)
    rwa [Node.hasName_squeezedIn, Node.hasName_squeezedIn] at hname
  takesLimits {n n'} h := by
    rw [← takesLimits_squeezedIn false n', h, takesLimits_squeezedIn]
  isParen {n n'} h paren hparen := by
    rw [← isParen_squeezedIn hparen false n', h, isParen_squeezedIn hparen]
  setLimits h value := by
    intro inText
    rw [Node.squeezedIn_setAttribute, Node.squeezedIn_setAttribute, h]

end Parser

end MathMarkup

import Mathlib
import Monorepo.Proofs.Codemod.Grammar

/-!
# A parser that keeps the grammar laws

`GrammarLaws` says what the patches need of a script parser. This module shows that the laws can
be met. `readsOnly text p` reads one text, as the tree `p`, and refuses every other. Of the text
`export default {a}`, read as the tree the project's grammar gives it, the laws hold: every edit
the planner makes writes a `:` (a property) or an `i` (an import) into a text that has neither,
so no edited text is read back; and the tree holds no string, pair, array, identifier or call, so
the laws about such nodes ask nothing.
-/

namespace Monorepo.Script

mutual

/-- Whether `q` holds at a node and at every node below it. -/
def Node.everyCheck (q : Node → Bool) : Node → Bool
  | ⟨k, f, s, e, cs⟩ => q ⟨k, f, s, e, cs⟩ && Node.everyAmong q cs

def Node.everyAmong (q : Node → Bool) : List Node → Bool
  | [] => true
  | c :: cs => Node.everyCheck q c && Node.everyAmong q cs

end

theorem Node.everyAmong_iff {q : Node → Bool} {cs : List Node} :
    Node.everyAmong q cs = true ↔ ∀ c ∈ cs, c.everyCheck q = true := by
  induction cs with
  | nil => simp [Node.everyAmong]
  | cons c cs ih => simp [Node.everyAmong, ih]

theorem Node.everyCheck_iff {q : Node → Bool} {n : Node} :
    n.everyCheck q = true ↔ q n = true ∧ ∀ c ∈ n.children, c.everyCheck q = true := by
  obtain ⟨k, f, s, e, cs⟩ := n
  simp [Node.everyCheck, Node.everyAmong_iff]

theorem Node.everyCheck_subtreeAt {q : Node → Bool} :
    ∀ {n x : Node} {a : List Nat}, n.everyCheck q = true → n.subtreeAt a = some x → q x = true
  | n, x, [], every, found => by
    rw [Node.subtreeAt_nil, Option.some.injEq] at found
    subst found
    exact (Node.everyCheck_iff.mp every).1
  | n, x, i :: rest, every, found => by
    rw [Node.subtreeAt_cons] at found
    obtain ⟨c, child, below⟩ := Option.bind_eq_some_iff.mp found
    have everyBelow := (Node.everyCheck_iff.mp every).2 c (List.mem_of_getElem? child)
    exact Node.everyCheck_subtreeAt everyBelow below

end Monorepo.Script

namespace Monorepo.Codemod

open Monorepo.Script Monorepo.Json Node

theorem TextEdit.mem_splice {src : Source} {edit : TextEdit} {c : Char}
    (written : c ∈ edit.text.toList) : c ∈ (edit.splice src).toList := by
  simp [TextEdit.splice, written]

theorem colon_mem_afterLastMember {src : Source} {container last : Node} {style : ObjectStyle}
    {member : String} (inMember : ':' ∈ member.toList) :
    ':' ∈ (afterLastMember src container last style member).text.toList := by
  unfold afterLastMember
  cases style.multiline <;> cases commaAfter container last <;>
    simp [TextEdit.insert, TextEdit.replace, inMember]

theorem colon_mem_renderObject (key value : String) (style : ObjectStyle) :
    ':' ∈ (renderObject [(key, value)] style).toList := by
  unfold renderObject
  simp only [List.isEmpty_cons, Bool.false_eq_true, if_false]
  split <;> simp

theorem colon_mem_insertion (src : Source) (object : Node) (style : ObjectStyle) (key : String)
    (rest : List String) (value : PatchValue) :
    ':' ∈ (insertion src object style key rest value).text.toList := by
  unfold insertion
  dsimp only
  cases object.members.getLast? with
  | some last => exact colon_mem_afterLastMember (by simp)
  | none =>
    dsimp only
    split
    · simpa [TextEdit.replace] using colon_mem_renderObject ..
    · simp [TextEdit.insert]

theorem i_mem_importEdit {p : Parsed} {name module : String} {edit : TextEdit}
    (made : importEdit p name module = some edit) : 'i' ∈ edit.text.toList := by
  unfold importEdit at made
  dsimp only at made
  split at made
  · simp at made
  · split at made
    · cases made
      simp [TextEdit.insert]
    · split at made <;> cases made <;> simp [TextEdit.insert]

/-- A parser that reads `text` as `p` and refuses every other text. -/
def readsOnly (text : String) (p : Parsed) : ScriptParser := fun _ t _ =>
  bif t == text then .ok p else .error (.parse "" "unexpected text")

theorem readsOnly_eq_ok {text t : String} {p p' : Parsed} {language : Language} {origin : String}
    (parsed : readsOnly text p language t origin = .ok p') : t = text ∧ p' = p := by
  unfold readsOnly at parsed
  cases same : t == text
  · simp [same] at parsed
  · simp only [same, cond_true, Except.ok.injEq] at parsed
    exact ⟨beq_iff_eq.mp same, parsed.symm⟩

/-- An object holding one shorthand property, as the default export of a file. -/
def shorthandSource : String := "export default {a}"

/-- The tree the grammar gives `shorthandSource`. -/
def shorthandTree : Node :=
  ⟨.program, none, 0, 18,
    [⟨.exportStatement, none, 0, 18,
      [.leaf (.token "export") 0 6, .leaf (.token "default") 7 14,
        ⟨.object, some .value, 15, 18,
          [.leaf (.token "\x7b") 15 16, .leaf .shorthandPropertyIdentifier 16 17,
            .leaf (.token "\x7d") 17 18]⟩]⟩]⟩

def shorthandParsed : Parsed := ⟨Source.ofString shorthandSource, shorthandTree⟩

set_option maxRecDepth 100000 in
example : Script.parse .typescript shorthandSource "v" = .ok shorthandParsed := by cbv

/-- A patch that leaves the shorthand property `a` as it stands. -/
def shorthandSkip : ConfigPatch := ⟨[⟨["a"], .literal (.bool true), .skip⟩], []⟩

/-- A node of none of the kinds the laws speak of, with no declarator among its children. -/
def lawFree (n : Node) : Bool :=
  (match n.kind with
    | .string | .pair | .array | .identifier | .callExpression => false
    | _ => true) &&
  n.children.all fun c => match c.kind with
    | .variableDeclarator => false
    | _ => true

theorem shorthandTree_lawFree {a : List Nat} {x : Node} (found : shorthandTree.subtreeAt a = some x) :
    lawFree x = true :=
  Node.everyCheck_subtreeAt (by decide) found

theorem shorthandSource_no_colon : ':' ∉ shorthandSource.toList := by decide

theorem shorthandSource_no_i : 'i' ∉ shorthandSource.toList := by decide

theorem TextEdit.splice_ne {src : Source} {edit : TextEdit} {c : Char} {text : String}
    (written : c ∈ edit.text.toList) (absent : c ∉ text.toList) : edit.splice src ≠ text := by
  intro same
  exact absent (same ▸ TextEdit.mem_splice written)

set_option maxRecDepth 100000 in
theorem shorthandSource_not_json : (Json.Relaxed.read shorthandSource).isOk = false := by cbv

theorem readsOnly_shorthand_laws : GrammarLaws (readsOnly shorthandSource shorthandParsed) := by
  have free : ∀ {language text origin p a x}, readsOnly shorthandSource shorthandParsed language
      text origin = .ok p → p.root.subtreeAt a = some x → lawFree x = true := by
    intro language text origin p a x parsed found
    obtain ⟨-, rfl⟩ := readsOnly_eq_ok parsed
    exact shorthandTree_lawFree found
  have kindFree : ∀ {language text origin p a x k}, readsOnly shorthandSource shorthandParsed
      language text origin = .ok p → p.root.subtreeAt a = some x → x.kind = k →
      k ∈ [Kind.string, .pair, .array, .identifier, .callExpression] → False := by
    intro language text origin p a x k parsed found kind listed
    have lawful := free parsed found
    simp only [List.mem_cons, List.not_mem_nil, or_false] at listed
    rcases listed with rfl | rfl | rfl | rfl | rfl <;> simp [lawFree, kind] at lawful
  constructor
  case source =>
    intro language text origin p parsed
    obtain ⟨rfl, rfl⟩ := readsOnly_eq_ok parsed
    rfl
  case shaped =>
    intro language text origin p parsed
    constructor
    · intro a x found identifier
      exact (kindFree parsed found identifier (by simp)).elim
    · intro a x j c found child declarator
      have lawful := free parsed found
      simp only [lawFree, Bool.and_eq_true, List.all_eq_true] at lawful
      have := lawful.2 c (List.mem_of_getElem? child)
      simp [declarator] at this
    · intro a x k c found call
      exact (kindFree parsed found call (by simp)).elim
    · intro a x found pair
      exact (kindFree parsed found pair (by simp)).elim
  case string_quote =>
    intro language text origin p parsed a n found string
    exact (kindFree parsed found string (by simp)).elim
  case insert_member =>
    intro language text origin p p' a x style key rest value shape parsed found object sane
      written reparsed
    obtain ⟨-, rfl⟩ := readsOnly_eq_ok parsed
    exact absurd (readsOnly_eq_ok reparsed).1
      (TextEdit.splice_ne (colon_mem_insertion ..) shorthandSource_no_colon)
  case replace_value =>
    intro language text origin p p' a j x v style value shape parsed found pair
    exact (kindFree parsed found pair (by simp)).elim
  case replace_shorthand =>
    intro language text origin p p' a x style key value shape parsed found shorthand sane
      written reparsed
    exact absurd (readsOnly_eq_ok reparsed).1
      (TextEdit.splice_ne (by simp [TextEdit.replace]) shorthandSource_no_colon)
  case append_element =>
    intro language text origin p p' a x last style value shape parsed found array
    exact (kindFree parsed found array (by simp)).elim
  case append_first =>
    intro language text origin p p' a x style value shape parsed found array
    exact (kindFree parsed found array (by simp)).elim
  case add_import =>
    intro language text origin p p' name module edit parsed plain made reparsed
    exact absurd (readsOnly_eq_ok reparsed).1
      (TextEdit.splice_ne (i_mem_importEdit made) shorthandSource_no_i)
  case json_exports_nothing =>
    intro language text origin p document parsed read
    obtain ⟨rfl, -⟩ := readsOnly_eq_ok parsed
    have notJson := shorthandSource_not_json
    rw [read] at notJson
    exact Bool.noConfusion notJson

end Monorepo.Codemod

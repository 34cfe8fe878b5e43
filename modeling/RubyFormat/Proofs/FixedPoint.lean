import Mathlib.Algebra.Order.BigOperators.Group.List
import Mathlib.Algebra.Order.Group.Nat
import RubyFormat.Proofs.Faultless
import RubyFormat.Proofs.Ink
import RubyFormat.Proofs.Locality

/-!
# Formatted text is formatted

The text of a formatted source is laid out as the source is, if it has the same tree and the same
options apply.  Pragmas can make the options differ, because only those in the first lines count and
formatting moves lines up.  Then the text stays as it is exactly if no block of the tree can be
collapsed: a collapsed block always takes less ink than the block itself.
-/

namespace RubyFormat

namespace Node

/-- Whether the block of the node itself can be collapsed below the given nodes. -/
def collapsesHere (parents : List Node) : Node → Bool
  | node@(.methodAddBlock _ callee block) =>
      callee.takesBlockArgument && (node.shorthand? parents block).isSome
  | _ => false

/-- Whether a block of the tree can be collapsed, the tree standing below the given nodes. -/
def collapses (tree : Node) (parents : List Node) : Bool :=
  tree.fold (fun node fields parents =>
    node.collapsesHere parents || fields.any fun field => field.2.toList.any (· (node :: parents)))
    parents

/-- A block of a tree can be collapsed if that of its root can or one of the trees right below. -/
theorem collapses_eq (node : Node) (parents : List Node) :
    node.collapses parents =
      (node.collapsesHere parents || node.children.any (·.collapses (node :: parents))) := by
  unfold collapses
  rw [fold_eq]
  simp [children, List.any_map, List.any_flatMap, Function.comp_def]

/-- A node that is no call with a block is laid out alike if the nodes right below are. -/
theorem layout_congr {node : Node} {on off : Options} {parents : List Node}
    (noBlock : node.kind ≠ .methodAddBlock)
    (alike : ∀ child ∈ node.children,
      child.layout on (node :: parents) = child.layout off (node :: parents)) :
    node.layout on parents = node.layout off parents := by
  calc node.layout on parents
      = node.arrange none fun holder child => child.layout off (holder :: parents) :=
        layout_eq_arrange_none noBlock alike
    _ = node.layout off parents := (layout_eq_arrange_none noBlock fun _ _ => rfl).symm

/-- The number of characters besides white space that the nodes right below are laid out with. -/
def inkBelow (options : Options) (parents : List Node) (node : Node) : Nat :=
  (node.children.map fun child => (child.layout options parents).inkLength).sum

/-- What a node is laid out with besides the nodes right below does not depend on the options. -/
theorem balance {node : Node} (on off : Options) (parents : List Node)
    (noBlock : node.kind ≠ .methodAddBlock) (shaped : node.shaped = true) :
    (node.layout on parents).inkLength + node.inkBelow off (node :: parents) =
      (node.layout off parents).inkLength + node.inkBelow on (node :: parents) := by
  cases node with
  | methodAddBlock pos callee block => exact absurd rfl noBlock
  | lambda pos params body =>
    obtain ⟨hard, around⟩ := lineAround_eq body
    simp [layout, inkBelow, children, fields, Field.toList, Function.comp_def, Option.toList_map,
      around]
    omega
  | braceBlock pos params body =>
    obtain ⟨hard, around⟩ := lineAround_eq body
    simp [layout, inkBelow, children, fields, Field.toList, Function.comp_def, Option.toList_map,
      around]
    omega
  | varField pos inner =>
    cases inner <;> simp [layout, inkBelow, children, fields, Field.toList, Nat.add_comm]
  | params pos required optional rest post keywords keywordRest block =>
    cases rest with
    | none =>
      simp [layout, layoutParams, inkBelow, children, fields, Field.toList, Function.comp_def,
        Option.toList_map]
      omega
    | some rest =>
      simp only [Node.shaped, Bool.and_eq_true, Option.all_some] at shaped
      have isRest := shaped.1.1.1.1.2
      cases rest with
      | restParam restPos ident =>
        simp [layout, layoutParams, inkBelow, children, fields, Field.toList, Function.comp_def,
          Option.toList_map, isRestParam, isExcessedComma]
        omega
      | excessedComma restPos =>
        simp [layout, layoutParams, inkBelow, children, fields, Field.toList, Function.comp_def,
          Option.toList_map, isRestParam, isExcessedComma]
        omega
      | _ => cases isRest
  | bodyStmt pos stmts handler elseBody ensure =>
    cases elseBody <;> cases ensure <;>
      simp [layout, inkBelow, children, fields, Field.toList, Function.comp_def,
        Option.toList_map] <;> omega
  | _ =>
    simp [layout, inkBelow, children, fields, Field.toList, Function.comp_def, Option.toList_map,
      apply_ite Doc.inkLength]
    try omega

/-- Arguments in parentheses with one more take at most a comma besides. -/
theorem inkLength_layoutParenWith_le (options : Options) (parents : List Node) (extra : String)
    (args : Node) :
    ∃ doc, layoutParenWith options parents extra (some args) = some doc ∧
      doc.inkLength ≤ (args.layout options parents).inkLength + (Doc.text extra).inkLength + 1 := by
  cases args with
  | argParen pos inner =>
      exact ⟨_, rfl, Layout.inkLength_argParenWith_le (layoutOption options _ inner) extra⟩
  | _ => exact ⟨_, rfl, Nat.zero_le _⟩

/-- One more argument of a call takes at most two characters besides. -/
theorem inkLength_layoutWith_le (options : Options) (parents : List Node) (extra : String)
    (callee : Node) :
    (callee.layoutWith options parents extra).inkLength ≤
      (callee.layout options parents).inkLength + (Doc.text extra).inkLength + 2 := by
  cases callee with
  | call pos receiver operator message args comments =>
      cases args with
      | none =>
          simp [layoutWith, layout, layoutParenWith, Layout.argParenWith]
          omega
      | some args =>
          obtain ⟨doc, laid, more⟩ := inkLength_layoutParenWith_le options
            (.call pos receiver operator message (some args) comments :: parents) extra args
          simp [layoutWith, layout, laid]
          omega
  | fcall pos message args =>
      cases args with
      | none =>
          simp [layoutWith, layout, layoutParenWith, Layout.fcallWith]
          omega
      | some args =>
          obtain ⟨doc, laid, more⟩ := inkLength_layoutParenWith_le options
            (.fcall pos message (some args) :: parents) extra args
          simp [layoutWith, layout, laid, Layout.fcallWith]
          omega
  | command pos message args =>
      simp [layoutWith, layout]
      omega
  | _ => simp [layoutWith]

/-- The statement that a block sends its only message with. -/
theorem eq_call_of_messageTo? {holder message : String} {stmt : Node}
    (sent : stmt.messageTo? holder = some message) :
    ∃ pos receiver operator messagePos,
      stmt = .call pos receiver operator (.name .ident messagePos message) none [] ∧
        (operator = "." ∨ operator = "::") := by
  unfold messageTo? at sent
  split at sent
  next =>
    split at sent
    next holds =>
      cases sent
      exact ⟨_, _, _, _, rfl, holds.2.1⟩
    next => cases sent
  next => cases sent

/-- A call without arguments takes the ink of its message and more. -/
theorem lt_inkLength_of_messageTo? {holder message : String} {stmt : Node} (options : Options)
    (parents : List Node) (sent : stmt.messageTo? holder = some message) :
    (Doc.text message).inkLength < (stmt.layout options parents).inkLength := by
  obtain ⟨pos, receiver, operator, messagePos, rfl, mark⟩ := eq_call_of_messageTo? sent
  have marked : 0 < (Doc.text operator).inkLength := by
    obtain rfl | rfl := mark <;> decide
  simp [layout]
  omega

/-- The bars of a block take two characters. -/
theorem two_le_inkLength_of_isOfKind {bars : Node} (options : Options) (parents : List Node)
    (isBars : bars.isOfKind .blockVar = true) : 2 ≤ (bars.layout options parents).inkLength := by
  cases bars with
  | blockVar pos params => simp [layout]
  | _ => cases isBars

theorem eq_bodyStmt_of_blockStmts {pos : Pos} {params : Option Node} {body stmt : Node}
    (only : (Node.doBlock pos params body).blockStmts = [stmt]) :
    ∃ bodyPos, body = .bodyStmt bodyPos [stmt] none none none := by
  unfold blockStmts at only
  split at only
  next found => cases found
  next found => cases found
  next bodyPos stmts found =>
    cases found
    exact ⟨_, by rw [only]⟩
  next => cases only

/-- A block that only sends a message takes more ink than the shorthand. -/
theorem le_inkLength_of_soleMessage? {block : Node} {message : String} (options : Options)
    (parents : List Node) (shaped : block.shaped = true) (isBlock : block.isBlock = true)
    (sent : block.soleMessage? = some message) :
    (Doc.text message).inkLength + 5 ≤ (block.layout options parents).inkLength := by
  unfold soleMessage? at sent
  split at sent
  next holder stmt held only =>
    cases block with
    | braceBlock pos params body =>
        cases params with
        | none => cases held
        | some bars =>
            cases only
            have isBars : bars.isOfKind .blockVar = true := (Bool.and_eq_true_iff.1 shaped).1
            obtain ⟨hard, around⟩ := lineAround_eq [stmt]
            have one := lt_inkLength_of_messageTo? options
              (.braceBlock pos (some bars) [stmt] :: parents) sent
            have two := two_le_inkLength_of_isOfKind options
              (.braceBlock pos (some bars) [stmt] :: parents) isBars
            simp [layout, around]
            omega
    | doBlock pos params body =>
        cases params with
        | none => cases held
        | some bars =>
            obtain ⟨bodyPos, rfl⟩ := eq_bodyStmt_of_blockStmts only
            have isBars : bars.isOfKind .blockVar = true := (Bool.and_eq_true_iff.1 shaped).1
            have one := lt_inkLength_of_messageTo? options
              (.bodyStmt bodyPos [stmt] none none none ::
                .doBlock pos (some bars) (.bodyStmt bodyPos [stmt] none none none) :: parents) sent
            have two := two_le_inkLength_of_isOfKind options
              (.doBlock pos (some bars) (.bodyStmt bodyPos [stmt] none none none) :: parents) isBars
            simp [layout, Doc.hardLine]
            omega
    | _ => cases isBlock
  next => cases sent

/-- How a tree is laid out with blocks collapsed, compared to how it is without. -/
structure Shrinks (on off : Options) (node : Node) (parents : List Node) : Prop where
  eq_of_not_collapses :
    node.collapses parents = false → node.layout on parents = node.layout off parents
  le : (node.layout on parents).inkLength ≤ (node.layout off parents).inkLength
  lt_of_collapses : node.collapses parents = true →
    (node.layout on parents).inkLength < (node.layout off parents).inkLength

/-- Nodes that shrink make a node shrink that is itself laid out alike. -/
theorem Shrinks.of_below {on off : Options} {node : Node} {parents : List Node}
    (kept : node.collapsesHere parents = false)
    (congr : (∀ child ∈ node.children,
      child.layout on (node :: parents) = child.layout off (node :: parents)) →
        node.layout on parents = node.layout off parents)
    (balanced : (node.layout on parents).inkLength + node.inkBelow off (node :: parents) =
      (node.layout off parents).inkLength + node.inkBelow on (node :: parents))
    (below : ∀ child ∈ node.children, Shrinks on off child (node :: parents)) :
    Shrinks on off node parents := by
  have told := collapses_eq node parents
  rw [kept, Bool.false_or] at told
  have le : node.inkBelow on (node :: parents) ≤ node.inkBelow off (node :: parents) :=
    List.sum_le_sum fun child mem => (below child mem).le
  refine ⟨fun none => congr fun child mem => ?_, by omega, fun some => ?_⟩
  · rw [told, List.any_eq_false] at none
    exact (below child mem).eq_of_not_collapses (by simpa using none child mem)
  · rw [told, List.any_eq_true] at some
    obtain ⟨child, mem, collapses⟩ := some
    have lt : node.inkBelow on (node :: parents) < node.inkBelow off (node :: parents) :=
      List.sum_lt_sum _ _ (fun child mem => (below child mem).le)
        ⟨child, mem, (below child mem).lt_of_collapses collapses⟩
    omega

/-- A call keeps its block if it is not to be collapsed or cannot be. -/
theorem layout_of_kept (options : Options) (pos : Pos) (callee block : Node) (parents : List Node)
    (kept : options.toProc = false ∨
      (Node.methodAddBlock pos callee block).collapsesHere parents = false) :
    (Node.methodAddBlock pos callee block).layout options parents =
      .concat [callee.layout options (.methodAddBlock pos callee block :: parents), " ",
        block.layout options (.methodAddBlock pos callee block :: parents)] := by
  rw [layout]
  split
  next extra found =>
    split at found
    next collapsed =>
      obtain ⟨isOn, takes⟩ := Bool.and_eq_true_iff.1 collapsed
      obtain isOff | kept := kept
      · exact absurd isOn (by simp [isOff])
      · simp [collapsesHere, takes, found] at kept
    next => cases found
  next => rfl

theorem layout_of_collapses (options : Options) (isOn : options.toProc = true) (pos : Pos)
    (callee block : Node) (parents : List Node)
    (collapsed : (Node.methodAddBlock pos callee block).collapsesHere parents = true) :
    ∃ message, block.soleMessage? = some message ∧
      (Node.methodAddBlock pos callee block).layout options parents =
        callee.layoutWith options (.methodAddBlock pos callee block :: parents)
          ("&:" ++ message) := by
  obtain ⟨takes, found⟩ := Bool.and_eq_true_iff.1 collapsed
  obtain ⟨extra, found⟩ := Option.isSome_iff_exists.1 found
  have laid : (Node.methodAddBlock pos callee block).layout options parents =
      callee.layoutWith options (.methodAddBlock pos callee block :: parents) extra := by
    rw [layout]
    simp [isOn, takes, found]
  unfold shorthand? at found
  split at found
  next => cases found
  next message sent =>
    split at found
    next => cases found
    next =>
      cases found
      exact ⟨message, sent, laid⟩

theorem inkLength_shorthand (message : String) :
    (Doc.text ("&:" ++ message)).inkLength = (Doc.text message).inkLength + 2 := by
  have marks : (Text.ink "&:".toList).length = 2 := by decide
  simp only [Doc.inkLength, Doc.ink, String.toList_append, Text.ink_append, List.length_append,
    marks]
  omega

/-- Collapsing the blocks of a tree changes nothing if there are none, and takes less ink otherwise. -/
theorem shrinks {on off : Options} (isOn : on.toProc = true) (isOff : off.toProc = false)
    {node : Node} (shaped : node.wellShaped = true) (parents : List Node) :
    Shrinks on off node parents := by
  induction node using induction_children generalizing parents with
  | step node ih =>
    obtain ⟨here, inside⟩ := wellShaped_iff.1 shaped
    have below (child : Node) (mem : child ∈ node.children) :
        Shrinks on off child (node :: parents) :=
      ih child mem (inside child mem) (node :: parents)
    by_cases isCall : node.kind = .methodAddBlock
    · cases node with
      | methodAddBlock pos callee block =>
          have mem (child : Node) (either : child = callee ∨ child = block) :
              child ∈ (Node.methodAddBlock pos callee block).children := by
            simpa [children, fields, Field.toList] using either
          have laidOff := layout_of_kept off pos callee block parents (.inl isOff)
          cases kept : (Node.methodAddBlock pos callee block).collapsesHere parents with
          | false =>
              have laidOn := layout_of_kept on pos callee block parents (.inr kept)
              refine .of_below kept (fun alike => ?_) ?_ below
              · rw [laidOn, laidOff, alike callee (mem callee (.inl rfl)),
                  alike block (mem block (.inr rfl))]
              · rw [laidOn, laidOff]
                simp [inkBelow, children, fields, Field.toList]
                omega
          | true =>
              obtain ⟨message, sent, laidOn⟩ := layout_of_collapses on isOn pos callee block parents kept
              have callee_le := (below callee (mem callee (.inl rfl))).le
              have with_le := inkLength_layoutWith_le on
                (.methodAddBlock pos callee block :: parents) ("&:" ++ message) callee
              have block_le := le_inkLength_of_soleMessage? off
                (.methodAddBlock pos callee block :: parents)
                (wellShaped_iff.1 (inside block (mem block (.inr rfl)))).1
                (Bool.and_eq_true_iff.1 here).2 sent
              have shorter : ((Node.methodAddBlock pos callee block).layout on parents).inkLength <
                  ((Node.methodAddBlock pos callee block).layout off parents).inkLength := by
                rw [laidOn, laidOff]
                simp [inkLength_shorthand] at with_le ⊢
                omega
              refine ⟨fun none => ?_, Nat.le_of_lt shorter, fun _ => shorter⟩
              rw [collapses_eq, kept] at none
              cases none
      | _ => cases isCall
    · refine .of_below ?_ (layout_congr isCall) (balance on off parents isCall here) below
      cases node with
      | methodAddBlock pos callee block => exact absurd rfl isCall
      | _ => rfl

end Node

/-- Whether blocks are collapsed changes the layout of a tree if and only if it changes its ink. -/
theorem Node.layout_eq_or_inkLength_ne {one other : Options} {tree : Node}
    (shaped : tree.wellShaped = true) (differ : one.toProc ≠ other.toProc) :
    (tree.collapses [] = false ∧ tree.layout one [] = tree.layout other []) ∨
      (tree.collapses [] = true ∧
        (tree.layout one []).inkLength ≠ (tree.layout other []).inkLength) := by
  have oriented {on off : Options} (isOn : on.toProc = true) (isOff : off.toProc = false) :
      (tree.collapses [] = false ∧ tree.layout on [] = tree.layout off []) ∨
        (tree.collapses [] = true ∧
          (tree.layout on []).inkLength ≠ (tree.layout off []).inkLength) := by
    have shrinks := Node.shrinks isOn isOff shaped []
    cases collapses : tree.collapses [] with
    | false => exact .inl ⟨rfl, shrinks.eq_of_not_collapses collapses⟩
    | true => exact .inr ⟨rfl, Nat.ne_of_lt (shrinks.lt_of_collapses collapses)⟩
  cases isOn : one.toProc with
  | true => exact oriented isOn (by simpa [isOn] using differ)
  | false =>
      have isOff : other.toProc = true := by simpa [isOn] using differ
      exact (oriented isOff isOn).imp (fun same => ⟨same.1, same.2.symm⟩)
        fun more => ⟨more.1, more.2.symm⟩

/-- What is written of a document has the ink of the document. -/
theorem Doc.ink_of_write {width : Int} {doc : Doc} {text : String}
    (written : doc.write width = .ok text) : Text.ink text.toList = doc.ink := by
  unfold write at written
  split at written
  next => cases written
  next => rw [← Except.ok.inj written, ink_render]

theorem ok_of_mapError_width {result : Except WidthError String} {text : String}
    (formatted : result.mapError FormatError.width = .ok text) : result = .ok text := by
  cases result with
  | error cause => cases formatted
  | ok value => exact congrArg Except.ok (Except.ok.inj formatted)

/--
The text of a formatted source stays as it is when it is formatted again exactly if its pragmas ask
to leave it alone, or ask for the same as those of the source, or if no block of the tree can be
collapsed.
-/
theorem format_formatted_iff {options : Options} {source text : String} {tree again : Node}
    (isOff : options.toProc = false) (formatted : format options source = .ok text)
    (parsed : Node.ofSource source = .ok tree) (reparsed : Node.ofSource text = .ok again)
    (same : again.same tree = true) :
    format options text = .ok text ↔
      (Pragmas.ofSource text).skip = true ∨
        (Pragmas.ofSource text).toProc = (Pragmas.ofSource source).toProc ∨
        tree.collapses [] = false := by
  cases alone : (Pragmas.ofSource source).skip with
  | true =>
      have unchanged : source = text := by simpa [format, alone] using formatted
      rw [← unchanged] at formatted ⊢
      exact ⟨fun _ => .inr (.inl rfl), fun _ => formatted⟩
  | false =>
      rw [format_eq options source alone parsed] at formatted
      have written := ok_of_mapError_width formatted
      cases aloneToo : (Pragmas.ofSource text).skip with
      | true => exact ⟨fun _ => .inl rfl, fun _ => by simp [format, aloneToo]⟩
      | false =>
          rw [format_eq options text aloneToo reparsed, Node.layout_eq_of_same same]
          have shaped := Node.wellShaped_of_source parsed
          by_cases agree : (Pragmas.ofSource text).toProc = (Pragmas.ofSource source).toProc
          · have alike : (Pragmas.ofSource text).apply options =
                (Pragmas.ofSource source).apply options := by
              rw [Pragmas.apply, Pragmas.apply, agree]
            rw [alike, formatted]
            exact ⟨fun _ => .inr (.inl agree), fun _ => rfl⟩
          · have differ : ((Pragmas.ofSource text).apply options).toProc ≠
                ((Pragmas.ofSource source).apply options).toProc := by
              simpa [Pragmas.apply, isOff] using agree
            obtain ⟨none, alike⟩ | ⟨some, differ⟩ := Node.layout_eq_or_inkLength_ne shaped differ
            · rw [alike, formatted]
              exact ⟨fun _ => .inr (.inr none), fun _ => rfl⟩
            · refine ⟨fun fixed => absurd (congrArg List.length ?_) differ, fun either => ?_⟩
              · exact (Doc.ink_of_write (ok_of_mapError_width fixed)).symm.trans
                  (Doc.ink_of_write written)
              · simp [agree, some] at either

/-- A pragma that is among the first lines of both texts asks for the same. -/
theorem format_formatted_kept_pragma :
    let source := "# garnet: to-proc\n\nfoo \x7b x.y \x7d"
    let text := "# garnet: to-proc\nfoo \x7b x.y \x7d\n"
    ∃ tree again, Node.ofSource source = .ok tree ∧ Node.ofSource text = .ok again ∧
      again.same tree = true ∧
      (format {} text = .ok text ↔
        (Pragmas.ofSource text).skip = true ∨
          (Pragmas.ofSource text).toProc = (Pragmas.ofSource source).toProc ∨
          tree.collapses [] = false) := by
  intro source text
  obtain ⟨again, tree, reparsed, parsed, same⟩ := sameTree_iff.1
    (show sameTree text source = true by decide +kernel)
  exact ⟨tree, again, parsed, reparsed, same,
    format_formatted_iff rfl (by decide +kernel) parsed reparsed same⟩

/-- Formatting moves a pragma into the first lines, so that formatting again collapses a block. -/
theorem format_formatted_moved_pragma :
    let source := "\n\n\n\n\n# garnet: to-proc\nfoo \x7b |x| x.y \x7d\n"
    let text := "# garnet: to-proc\nfoo \x7b |x| x.y \x7d\n"
    format {} source = .ok text ∧ sameTree text source = true ∧
      format {} text = .ok "# garnet: to-proc\nfoo(&:y)\n" := by
  decide +kernel

end RubyFormat

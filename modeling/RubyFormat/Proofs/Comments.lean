import RubyFormat.Proofs.Leaves
import RubyFormat.Proofs.Plain

/-!
# Comments are kept

A comment of a source is a statement of its own in the tree, or it belongs to the statement that it
stands behind.  A comment is a leaf of the tree like any name, and it cannot be lost like one: only
parameters are replaced, and those are made of names.  So the tree has the comments of its source,
each as often as the source has it.
-/

namespace RubyFormat

/-! ## The comments of trees and token lists -/

/-- The text of a node that is a comment. -/
def Node.commentText? : Node → Option String
  | .comment _ text => some text
  | _ => none

/-- The texts of all comments of a tree. -/
def Node.comments (tree : Node) : List String :=
  tree.preorder.filterMap commentText?

/-- The texts of all comments of a token list. -/
def Tokens.comments (tokens : Tokens) : List String :=
  (tokens.toList.filter fun token => token.kind == .comment).map Token.text

/-- The texts of the comments among leaves. -/
def Leaf.comments (leaves : List Leaf) : List String :=
  (leaves.filter fun leaf => leaf.kind == .comment).map Leaf.text

@[simp]
theorem Leaf.comments_append (leaves others : List Leaf) :
    comments (leaves ++ others) = comments leaves ++ comments others := by
  simp [comments]

theorem Leaf.comments_of_name (kind : NameKind) (pos : Pos) (text : String) :
    comments (kind.leaves pos text) = [] := by
  cases kind <;> rfl

namespace Node

theorem comments_eq (node : Node) :
    node.comments = node.commentText?.toList ++ node.children.flatMap comments := by
  unfold comments
  rw [preorder_eq, List.filterMap_cons, List.filterMap_flatMap]
  cases node.commentText? <;> rfl

@[simp]
theorem comments_leavesList (nodes : List Node) :
    Leaf.comments (leavesList nodes) = nodes.flatMap fun node => Leaf.comments node.leaves := by
  induction nodes with
  | nil => rfl
  | cons node rest ih => rw [leavesList, Leaf.comments_append, ih, List.flatMap_cons]

@[simp]
theorem comments_leavesOption (node : Option Node) :
    Leaf.comments (leavesOption node) =
      node.toList.flatMap fun node => Leaf.comments node.leaves := by
  cases node <;> simp [Leaf.comments]

@[simp]
theorem comments_leavesOptionList (nodes : Option (List Node)) :
    Leaf.comments (leavesOptionList nodes) =
      (nodes.getD []).flatMap fun node => Leaf.comments node.leaves := by
  cases nodes with
  | none => rfl
  | some nodes => exact comments_leavesList nodes

/-- The comments among the leaves of a shaped node are its own and those below it. -/
theorem comments_leaves_eq {node : Node} (here : node.shaped = true) :
    Leaf.comments node.leaves =
      node.commentText?.toList ++ node.children.flatMap fun child => Leaf.comments child.leaves := by
  cases node with
  | name kind => exact Leaf.comments_of_name kind _ _
  | literal kind => cases kind <;> rfl
  | symbolLit _ value =>
      cases value with
      | name kind => cases kind <;> rfl
      | _ => cases here
  | comment | callShorthand | excessedComma | bare => rfl
  | _ => simp [children, fields, Field.toList, commentText?]

/-- The comments among the leaves of a shaped tree are those of the tree. -/
theorem comments_leaves {tree : Node} (shaped : tree.wellShaped = true) :
    Leaf.comments tree.leaves = tree.comments := by
  induction tree using induction_children with
  | step tree ih =>
    obtain ⟨here, below⟩ := wellShaped_iff.1 shaped
    rw [comments_leaves_eq here, comments_eq]
    exact congrArg _ (List.flatMap_congr fun child mem => ih child mem (below child mem))

end Node

/-! ## Sources -/

/-- A parameter that is replaced has no comment. -/
theorem ParamList.Named.spares {list : ParamList} (named : list.Named) {x : Leaf}
    (isComment : x.kind = .comment) (param : Node) : list.Spares x param := by
  refine List.count_eq_zero.2 fun mem => ?_
  cases isComment.symm.trans (named.replaced param x mem)

/-- The tree of a source has a comment as often as the tokens have it. -/
theorem Tokens.count_comment {source : String} {tokens : Tokens} {tree : Node}
    (lexed : ofSource source = .ok tokens) (parsed : tokens.parse = .ok tree) {x : Leaf}
    (isComment : x.kind = .comment) :
    tree.leaves.count x = (tokens.body.flatMap Token.leaves).count x := by
  obtain ⟨s, reads⟩ := Reads.of_parse parsed
  obtain ⟨lost, hands, -, keeps⟩ := reads.settledNamed x trivial
  have none : lost = 0 := keeps fun list param fits => fits.2.spares isComment param
  have tells : (ParseState.start tokens).Tells x :=
    ⟨close_of_source lexed, fun isName => nomatch isComment.symm.trans isName⟩
  have balance := (hands tells).2
  rw [owed_end lexed reads, none] at balance
  simp only [Field.leaves, Rule.held, List.count_nil, ParseState.owed, ParseState.start] at balance
  omega

theorem Token.comments_leaves (token : Token) :
    Leaf.comments token.leaves = if token.kind == .comment then [token.text] else [] := by
  unfold Token.leaves Token.isLeaf Token.leaf
  cases token.kind <;> rfl

theorem Tokens.comments_eq {source : String} {tokens : Tokens}
    (lexed : ofSource source = .ok tokens) :
    tokens.comments = Leaf.comments (tokens.body.flatMap Token.leaves) := by
  rw [comments, toList, List.filter_append, List.filter_singleton, close_of_source lexed]
  induction tokens.body with
  | nil => rfl
  | cons token rest ih =>
      rw [List.flatMap_cons, Leaf.comments_append, ← ih, Token.comments_leaves, List.filter_cons]
      split <;> rfl

/-- A tree that is read from the tokens of a source has their comments. -/
theorem Node.perm_comments {source : String} {tokens : Tokens} {tree : Node}
    (lexed : Tokens.ofSource source = .ok tokens) (ran : tokens.parse = .ok tree)
    (shaped : tree.wellShaped = true) : tree.comments.Perm tokens.comments := by
  rw [← comments_leaves shaped, Tokens.comments_eq lexed]
  refine List.Perm.map _ (List.perm_iff_count.2 fun x => ?_)
  by_cases isComment : x.kind = .comment
  · rw [List.count_filter (by simp [isComment]), List.count_filter (by simp [isComment])]
    exact Tokens.count_comment lexed ran isComment
  · rw [List.count_eq_zero.2, List.count_eq_zero.2] <;> simp [isComment]

/-- The parser keeps every comment: the comments of the tree are those of the source, and each is
there as often. -/
theorem Node.comments_perm_of_source {source : String} {tokens : Tokens} {tree : Node}
    (lexed : Tokens.ofSource source = .ok tokens) (parsed : Node.ofSource source = .ok tree) :
    tree.comments.Perm tokens.comments := by
  obtain ⟨others, same, ran⟩ := tokens_of_source parsed
  obtain rfl := Except.ok.inj (lexed.symm.trans same)
  exact perm_comments lexed ran (wellShaped_of_source parsed)

/-- The comments of parameters are sorted with them, so the order can differ. -/
theorem Node.comments_perm_of_source_sorted :
    let source :=
      "f \x7b |k: -> \x7b # b\n\x7d, l = -> \x7b # a\n\x7d| \x7d\n# c\nx.y # d\nz = 1 # a"
    ∃ tokens tree, Tokens.ofSource source = .ok tokens ∧ Node.ofSource source = .ok tree ∧
      tree.comments = ["# a", "# b", "# c", "# d", "# a"] ∧ tree.comments.Perm tokens.comments := by
  intro source
  obtain ⟨tree, parsed, comments⟩ := exists_of_source
    (show (Node.ofSource source).toOption.any
      (fun tree => tree.comments == ["# a", "# b", "# c", "# d", "# a"]) = true by decide +kernel)
  obtain ⟨tokens, lexed, -⟩ := tokens_of_source parsed
  exact ⟨tokens, tree, lexed, parsed, eq_of_beq comments, comments_perm_of_source lexed parsed⟩

end RubyFormat

import Scriptlet.Proofs.Labels
import Scriptlet.Proofs.Outline
import Scriptlet.Proofs.Typed.Safe

/-!
# Drawings of typed trees

The drawing of a typed tree leaves out which row of the tables an operator is, which type an
assigned variable has, and which variables are read-only. In a safe tree the types of the operands
tell the first two; so trees with the same drawing differ in the flags of their variables only.
-/

namespace Scriptlet.Typed

open Text (OneLine)

/-! ## Trees up to flags -/

def Variable.unflagged (v : Variable) : Variable := { v with readOnly := false }

namespace Expr

def unflagged : Expr → Expr
  | literal value => literal value
  | unary row operand => unary row operand.unflagged
  | binary lhs row rhs => binary lhs.unflagged row rhs.unflagged
  | read v => read v.unflagged
  | assign v rhs => assign v.unflagged rhs.unflagged
  | paren inner => paren inner.unflagged

theorem type_unflagged : ∀ e : Expr, e.unflagged.type = e.type
  | literal _ | unary _ _ | binary _ _ _ | read _ => rfl
  | assign _ rhs => type_unflagged rhs
  | paren inner => type_unflagged inner

def Worded : Expr → Prop
  | literal _ => True
  | unary _ operand => operand.Worded
  | binary lhs _ rhs => lhs.Worded ∧ rhs.Worded
  | read v => IsWord v.name
  | assign v rhs => IsWord v.name ∧ rhs.Worded
  | paren inner => inner.Worded

end Expr

namespace Stmt

mutual

def unflagged : Stmt → Stmt
  | .block body => .block (unflaggedAll body)
  | .expr e => .expr e.unflagged
  | .decl v init => .decl v.unflagged init.unflagged
  | .ifThen cond yes => .ifThen cond.unflagged yes.unflagged
  | .ifElse cond yes no => .ifElse cond.unflagged yes.unflagged no.unflagged
  | .while cond body => .while cond.unflagged body.unflagged
  | .for v lower upper body =>
    .for v.unflagged lower.unflagged upper.unflagged body.unflagged

def unflaggedAll : List Stmt → List Stmt
  | [] => []
  | s :: ss => s.unflagged :: unflaggedAll ss

end

mutual

def Worded : Stmt → Prop
  | .block body => AllWorded body
  | .expr e => e.Worded
  | .decl v init => IsWord v.name ∧ init.Worded
  | .ifThen cond yes => cond.Worded ∧ yes.Worded
  | .ifElse cond yes no => cond.Worded ∧ yes.Worded ∧ no.Worded
  | .while cond body => cond.Worded ∧ body.Worded
  | .for v lower upper body => IsWord v.name ∧ lower.Worded ∧ upper.Worded ∧ body.Worded

def AllWorded : List Stmt → Prop
  | [] => True
  | s :: ss => s.Worded ∧ AllWorded ss

end

end Stmt

/-! ## Words of labels -/

theorem UnaryOp.isWord_name (op : UnaryOp) : IsWord op.name := by cases op <;> decide

theorem BinaryOp.isWord_name (op : BinaryOp) : IsWord op.name := by cases op <;> decide

theorem UnaryRow.eq_of_name : ∀ row ∈ UnaryRow.all, ∀ row' ∈ UnaryRow.all,
    row.op.name = row'.op.name → row = row' := by decide

theorem BinaryRow.eq_of_name : ∀ row ∈ BinaryRow.all, ∀ row' ∈ BinaryRow.all,
    row.op.name = row'.op.name → row.lhs = row'.lhs → row.rhs = row'.rhs → row = row' := by
  decide +kernel

theorem isWord_pair {w w' : String} (h : IsWord w) (h' : IsWord w') : ∀ x ∈ [w, w'], IsWord x :=
  List.forall_mem_cons.mpr ⟨h, List.forall_mem_singleton.mpr h'⟩

theorem signature_eq (head : String) (v : Variable) :
    head ++ " " ++ v.signature = spaced [head, v.name ++ ":", v.type.name] := by
  have hcolon : ": " = ":" ++ " " := rfl
  have hsignature : v.signature = v.name ++ ": " ++ v.type.name := rfl
  simp only [spaced_cons_cons, spaced_singleton, hsignature, hcolon, String.append_assoc]

namespace Expr

def heading : Expr → List String
  | literal value => ["LiteralExpression", value.text]
  | unary row _ => ["UnaryExpression", row.op.name]
  | binary _ row _ => ["BinaryExpression", row.op.name]
  | read v => ["VariableExpression", v.name]
  | assign v _ => ["AssignmentExpression", v.name]
  | paren _ => ["ParenthesizedExpression"]

def words (e : Expr) : List String := e.heading ++ ["->", e.type.name]

theorem label_eq (e : Expr) : e.label = spaced e.words := by
  have harrow : " -> " = " " ++ "->" ++ " " := rfl
  have hlabel : e.label = spaced e.heading ++ " -> " ++ e.type.name := by
    cases e <;> simp only [heading, spaced_cons_cons, spaced_singleton] <;> rfl
  rw [hlabel, harrow]
  cases e <;>
    simp only [words, heading, List.cons_append, List.nil_append, spaced_cons_cons,
      spaced_singleton, String.append_assoc]

theorem isWord_words {e : Expr} (h : e.Worded) : ∀ w ∈ e.words, IsWord w := by
  have hheading : ∀ w ∈ e.heading, IsWord w := by
    cases e with
    | literal value => exact isWord_pair (by decide) value.isWord_text
    | unary row operand => exact isWord_pair (by decide) row.op.isWord_name
    | binary lhs row rhs => exact isWord_pair (by decide) row.op.isWord_name
    | read v => exact isWord_pair (by decide) h
    | assign v rhs => exact isWord_pair (by decide) h.1
    | paren inner => exact List.forall_mem_singleton.mpr (by decide)
  exact List.forall_mem_append.mpr
    ⟨hheading, isWord_pair (by decide) e.type.isWord_name⟩

/-- The label shows the type, and what stands before it. -/
theorem heading_of_label {e e' : Expr} (h : e.Worded) (h' : e'.Worded)
    (hlabel : e.label = e'.label) : e.heading = e'.heading ∧ e.type = e'.type := by
  have hne (e : Expr) : e.words ≠ [] := List.append_ne_nil_of_right_ne_nil _ (List.cons_ne_nil _ _)
  rw [label_eq, label_eq] at hlabel
  have hwords := words_of_spaced (isWord_words h) (hne e) (isWord_words h') (hne e') hlabel
  obtain ⟨hheading, htype⟩ := List.append_inj' hwords rfl
  exact ⟨hheading, Ty.name_inj (List.cons.inj (List.cons.inj htype).2).1⟩

end Expr

/-! ## Trees from their outlines -/

namespace Expr

def operands : Expr → List Expr
  | literal _ | read _ => []
  | unary _ operand => [operand]
  | binary lhs _ rhs => [lhs, rhs]
  | assign _ rhs => [rhs]
  | paren inner => [inner]

theorem outline_eq (e : Expr) : e.outline = .node e.label (e.operands.map outline) := by
  cases e <;> rfl

theorem outline_plain : ∀ {e : Expr}, e.Worded → e.outline.Plain
  | e, h => by
    rw [outline_eq, Outline.plain_node_iff, label_eq, List.forall_mem_map]
    refine ⟨oneLine_spaced (isWord_words h), ?_⟩
    cases e with
    | literal _ | read _ => exact nofun
    | unary _ operand => exact List.forall_mem_singleton.mpr (outline_plain h)
    | binary lhs _ rhs =>
      exact List.forall_mem_cons.mpr
        ⟨outline_plain h.1, List.forall_mem_singleton.mpr (outline_plain h.2)⟩
    | assign _ rhs => exact List.forall_mem_singleton.mpr (outline_plain h.2)
    | paren inner => exact List.forall_mem_singleton.mpr (outline_plain h)

-- By recursion on the first tree. The label gives the kind of tree and its type, and the operands
-- are alike up to flags, so they have the same types.
theorem unflagged_of_outline {known known' : List Slot} : ∀ {e e' : Expr}, e.Safe known →
    e'.Safe known' → e.Worded → e'.Worded → e.outline = e'.outline → e.unflagged = e'.unflagged
  | e, e', hs, hs', hw, hw', h => by
    rw [outline_eq, outline_eq, Outline.node.injEq] at h
    obtain ⟨hlabel, hoperands⟩ := h
    obtain ⟨hheading, htype⟩ := heading_of_label hw hw' hlabel
    cases e with
    | literal value =>
      cases e' with
      | literal value' =>
        have hvalue : value = value' := Value.text_inj (by simpa [heading] using hheading)
        rw [hvalue]
      | _ => simp [heading] at hheading
    | unary row operand =>
      cases e' with
      | unary row' operand' =>
        have hname : row.op.name = row'.op.name := by simpa [heading] using hheading
        have hrow : row = row' := UnaryRow.eq_of_name row hs.1 row' hs'.1 hname
        have hoperand : operand.unflagged = operand'.unflagged :=
          unflagged_of_outline hs.2.2 hs'.2.2 hw hw' (List.cons.inj hoperands).1
        rw [unflagged, unflagged, hrow, hoperand]
      | _ => simp [heading] at hheading
    | binary lhs row rhs =>
      cases e' with
      | binary lhs' row' rhs' =>
        obtain ⟨hmem, hlhs, hrhs, hsl, hsr⟩ := hs
        obtain ⟨hmem', hlhs', hrhs', hsl', hsr'⟩ := hs'
        obtain ⟨hleft, hright⟩ := List.cons.inj hoperands
        have hl : lhs.unflagged = lhs'.unflagged := unflagged_of_outline hsl hsl' hw.1 hw'.1 hleft
        have hr : rhs.unflagged = rhs'.unflagged :=
          unflagged_of_outline hsr hsr' hw.2 hw'.2 (List.cons.inj hright).1
        have hname : row.op.name = row'.op.name := by simpa [heading] using hheading
        have hrow : row = row' := by
          apply BinaryRow.eq_of_name row hmem row' hmem' hname
          · rw [← hlhs, ← hlhs', ← type_unflagged lhs, hl, type_unflagged]
          · rw [← hrhs, ← hrhs', ← type_unflagged rhs, hr, type_unflagged]
        rw [unflagged, unflagged, hl, hrow, hr]
      | _ => simp [heading] at hheading
    | read v =>
      cases e' with
      | read v' =>
        have hname : v.name = v'.name := by simpa [heading] using hheading
        have hv : v.type = v'.type := htype
        rw [unflagged, unflagged, Variable.unflagged, Variable.unflagged, hname, hv]
      | _ => simp [heading] at hheading
    | assign v rhs =>
      cases e' with
      | assign v' rhs' =>
        have hname : v.name = v'.name := by simpa [heading] using hheading
        have hv : v.type = v'.type := hs.1.symm.trans (htype.trans hs'.1)
        have hrhs : rhs.unflagged = rhs'.unflagged :=
          unflagged_of_outline hs.2 hs'.2 hw.2 hw'.2 (List.cons.inj hoperands).1
        rw [unflagged, unflagged, Variable.unflagged, Variable.unflagged, hname, hv, hrhs]
      | _ => simp [heading] at hheading
    | paren inner =>
      cases e' with
      | paren inner' =>
        have hinner : inner.unflagged = inner'.unflagged :=
          unflagged_of_outline hs hs' hw hw' (List.cons.inj hoperands).1
        rw [unflagged, unflagged, hinner]
      | _ => simp [heading] at hheading

end Expr

namespace Stmt

def words : Stmt → List String
  | .block _ => ["BlockStatement"]
  | .expr _ => ["ExpressionStatement"]
  | .decl v _ => ["VariableDeclaration", v.name ++ ":", v.type.name]
  | .ifThen _ _ | .ifElse _ _ _ => ["IfStatement"]
  | .while _ _ => ["WhileStatement"]
  | .for v _ _ _ => ["ForStatement", v.name ++ ":", v.type.name]

def partOutlines : Stmt → List Outline
  | .block body => outlines body
  | .expr e => [e.outline]
  | .decl _ init => [init.outline]
  | .ifThen cond yes => [cond.outline, yes.outline]
  | .ifElse cond yes no => [cond.outline, yes.outline, no.outline]
  | .while cond body => [cond.outline, body.outline]
  | .for _ lower upper body => [lower.outline, upper.outline, body.outline]

theorem outline_eq (s : Stmt) : s.outline = .node (spaced s.words) s.partOutlines := by
  cases s with
  | decl v init =>
    rw [words, ← signature_eq]
    rfl
  | «for» v lower upper body =>
    rw [words, ← signature_eq]
    rfl
  | _ =>
    rw [words, spaced_singleton]
    rfl

theorem isWord_words {s : Stmt} (h : s.Worded) : ∀ w ∈ s.words, IsWord w := by
  have hsignature {head : String} (hhead : IsWord head) {v : Variable} (hv : IsWord v.name) :
      ∀ w ∈ [head, v.name ++ ":", v.type.name], IsWord w :=
    List.forall_mem_cons.mpr ⟨hhead, isWord_pair (hv.append (by decide)) v.type.isWord_name⟩
  cases s with
  | decl v init => exact hsignature (by decide) h.1
  | «for» v lower upper body => exact hsignature (by decide) h.1
  | _ => exact List.forall_mem_singleton.mpr (by decide)

theorem variable_of_words {head : String} {v v' : Variable}
    (h : [head, v.name ++ ":", v.type.name] = [head, v'.name ++ ":", v'.type.name]) :
    v.unflagged = v'.unflagged := by
  obtain ⟨hname, hrest⟩ := List.cons.inj (List.cons.inj h).2
  have hname : v.name = v'.name := (String.append_left_inj _).mp hname
  have htype : v.type = v'.type := Ty.name_inj (List.cons.inj hrest).1
  rw [Variable.unflagged, Variable.unflagged, hname, htype]

theorem words_of_outline {s s' : Stmt} (h : s.Worded) (h' : s'.Worded)
    (houtline : s.outline = s'.outline) :
    s.words = s'.words ∧ s.partOutlines = s'.partOutlines := by
  have hne (s : Stmt) : s.words ≠ [] := by cases s <;> exact List.cons_ne_nil _ _
  rw [outline_eq, outline_eq, Outline.node.injEq] at houtline
  exact ⟨words_of_spaced (isWord_words h) (hne s) (isWord_words h') (hne s') houtline.1,
    houtline.2⟩

mutual

theorem outline_plain : ∀ {s : Stmt}, s.Worded → s.outline.Plain
  | s, h => by
    rw [outline_eq, Outline.plain_node_iff]
    refine ⟨oneLine_spaced (isWord_words h), ?_⟩
    cases s with
    | block body => exact outlines_plain h
    | expr e => exact List.forall_mem_singleton.mpr (Expr.outline_plain h)
    | decl v init => exact List.forall_mem_singleton.mpr (Expr.outline_plain h.2)
    | ifThen cond yes =>
      exact List.forall_mem_cons.mpr
        ⟨Expr.outline_plain h.1, List.forall_mem_singleton.mpr (outline_plain h.2)⟩
    | ifElse cond yes no =>
      exact List.forall_mem_cons.mpr ⟨Expr.outline_plain h.1, List.forall_mem_cons.mpr
        ⟨outline_plain h.2.1, List.forall_mem_singleton.mpr (outline_plain h.2.2)⟩⟩
    | «while» cond body =>
      exact List.forall_mem_cons.mpr
        ⟨Expr.outline_plain h.1, List.forall_mem_singleton.mpr (outline_plain h.2)⟩
    | «for» v lower upper body =>
      exact List.forall_mem_cons.mpr ⟨Expr.outline_plain h.2.1, List.forall_mem_cons.mpr
        ⟨Expr.outline_plain h.2.2.1, List.forall_mem_singleton.mpr (outline_plain h.2.2.2)⟩⟩

theorem outlines_plain : ∀ {ss : List Stmt}, AllWorded ss → ∀ o ∈ outlines ss, o.Plain
  | [], _ => nofun
  | _ :: _, h => List.forall_mem_cons.mpr ⟨outline_plain h.1, outlines_plain h.2⟩

end

mutual

theorem unflagged_of_outline : ∀ {s s' : Stmt} {known known' : List Slot}, s.Safe known →
    s'.Safe known' → s.Worded → s'.Worded → s.outline = s'.outline → s.unflagged = s'.unflagged
  | s, s', _, _, hs, hs', hw, hw', h => by
    obtain ⟨hwords, hparts⟩ := words_of_outline hw hw' h
    cases s with
    | block body =>
      cases s' with
      | block body' => rw [unflagged, unflagged, unflaggedAll_of_outlines hs hs' hw hw' hparts]
      | _ => simp [words] at hwords
    | expr e =>
      cases s' with
      | expr e' =>
        have he := Expr.unflagged_of_outline hs hs' hw hw' (List.cons.inj hparts).1
        rw [unflagged, unflagged, he]
      | _ => simp [words] at hwords
    | decl v init =>
      cases s' with
      | decl v' init' =>
        have hinit := Expr.unflagged_of_outline hs.2 hs'.2 hw.2 hw'.2 (List.cons.inj hparts).1
        rw [unflagged, unflagged, variable_of_words hwords, hinit]
      | _ => simp [words] at hwords
    | ifThen cond yes =>
      cases s' with
      | ifThen cond' yes' =>
        obtain ⟨hcond, hyes⟩ := List.cons.inj hparts
        have hcond := Expr.unflagged_of_outline hs.1 hs'.1 hw.1 hw'.1 hcond
        have hyes := unflagged_of_outline hs.2 hs'.2 hw.2 hw'.2 (List.cons.inj hyes).1
        rw [unflagged, unflagged, hcond, hyes]
      | ifElse cond' yes' no' => simp [partOutlines] at hparts
      | _ => simp [words] at hwords
    | ifElse cond yes no =>
      cases s' with
      | ifThen cond' yes' => simp [partOutlines] at hparts
      | ifElse cond' yes' no' =>
        obtain ⟨hcond, hbranches⟩ := List.cons.inj hparts
        obtain ⟨hyes, hno⟩ := List.cons.inj hbranches
        have hcond := Expr.unflagged_of_outline hs.1 hs'.1 hw.1 hw'.1 hcond
        have hyes := unflagged_of_outline hs.2.1 hs'.2.1 hw.2.1 hw'.2.1 hyes
        have hno := unflagged_of_outline hs.2.2 hs'.2.2 hw.2.2 hw'.2.2 (List.cons.inj hno).1
        rw [unflagged, unflagged, hcond, hyes, hno]
      | _ => simp [words] at hwords
    | «while» cond body =>
      cases s' with
      | «while» cond' body' =>
        obtain ⟨hcond, hbody⟩ := List.cons.inj hparts
        have hcond := Expr.unflagged_of_outline hs.1 hs'.1 hw.1 hw'.1 hcond
        have hbody := unflagged_of_outline hs.2 hs'.2 hw.2 hw'.2 (List.cons.inj hbody).1
        rw [unflagged, unflagged, hcond, hbody]
      | _ => simp [words] at hwords
    | «for» v lower upper body =>
      cases s' with
      | «for» v' lower' upper' body' =>
        obtain ⟨_, hsl, hsu, hsb⟩ := hs
        obtain ⟨_, hsl', hsu', hsb'⟩ := hs'
        obtain ⟨_, hwl, hwu, hwb⟩ := hw
        obtain ⟨_, hwl', hwu', hwb'⟩ := hw'
        obtain ⟨hlower, hrest⟩ := List.cons.inj hparts
        obtain ⟨hupper, hbody⟩ := List.cons.inj hrest
        have hlower := Expr.unflagged_of_outline hsl hsl' hwl hwl' hlower
        have hupper := Expr.unflagged_of_outline hsu hsu' hwu hwu' hupper
        have hbody := unflagged_of_outline hsb hsb' hwb hwb' (List.cons.inj hbody).1
        rw [unflagged, unflagged, variable_of_words hwords, hlower, hupper, hbody]
      | _ => simp [words] at hwords

theorem unflaggedAll_of_outlines : ∀ {ss ss' : List Stmt} {known known' : List Slot},
    AllSafe known ss → AllSafe known' ss' → AllWorded ss → AllWorded ss' →
    outlines ss = outlines ss' → unflaggedAll ss = unflaggedAll ss'
  | [], [], _, _, _, _, _, _, _ => rfl
  | [], _ :: _, _, _, _, _, _, _, h => by cases h
  | _ :: _, [], _, _, _, _, _, _, h => by cases h
  | s :: ss, s' :: ss', _, _, hs, hs', hw, hw', h => by
    obtain ⟨hfirst, hrest⟩ := List.cons.inj h
    rw [unflaggedAll, unflaggedAll, unflagged_of_outline hs.1 hs'.1 hw.1 hw'.1 hfirst,
      unflaggedAll_of_outlines hs.2 hs'.2 hw.2 hw'.2 hrest]

end

/-- What two safe trees with the same drawing have in common. -/
theorem unflagged_of_draw {s s' : Stmt} {known known' : List Slot} (hs : s.Safe known)
    (hs' : s'.Safe known') (hw : s.Worded) (hw' : s'.Worded)
    (h : s.outline.draw = s'.outline.draw) : s.unflagged = s'.unflagged := by
  have hrows := Outline.rows_of_draw (outline_plain hw) (outline_plain hw') h
  exact unflagged_of_outline hs hs' hw hw' (Outline.eq_of_rows hrows)

end Stmt

end Scriptlet.Typed

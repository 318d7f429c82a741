import BlockScript.Proofs.Grammar.Inheritance
import BlockScript.Proofs.Resolution.Tree

/-!
# Where declarations stand

A declaration that the reader replies with stands at the top level or directly in a block. It is
never itself the branch of a choice or the body of a loop, so that executing a block once declares
the names of its declarations one after another, without leaving any out. This holds of whatever is
read, with or without faults.
-/

namespace BlockScript

mutual

/-- No declaration is the branch of a choice or the body of a loop in the statement. -/
def Stmt.Placed : Stmt → Prop
  | block body => AllPlaced body
  | ifThen _ whenTrue => (∀ name, whenTrue.declares name = false) ∧ whenTrue.Placed
  | ifElse _ whenTrue whenFalse =>
      ((∀ name, whenTrue.declares name = false) ∧ whenTrue.Placed) ∧
        (∀ name, whenFalse.declares name = false) ∧ whenFalse.Placed
  | whileLoop _ body => (∀ name, body.declares name = false) ∧ body.Placed
  | print _ | expression _ | declare _ _ | breakLoop _ => True

def Stmt.AllPlaced : List Stmt → Prop
  | [] => True
  | statement :: rest => statement.Placed ∧ AllPlaced rest

end

/-- A statement that may be a branch or the body of a loop. -/
def Stmt.Branch (statement : Stmt) : Prop :=
  (∀ name, statement.declares name = false) ∧ statement.Placed

namespace Stmt

theorem allPlaced_iff (body : List Stmt) : AllPlaced body ↔ ∀ statement ∈ body, statement.Placed := by
  induction body with
  | nil => simp [AllPlaced]
  | cons statement rest inductionHypothesis => simp [AllPlaced, inductionHypothesis]

theorem AllPlaced.of_mem {body : List Stmt} (placed : AllPlaced body) {statement : Stmt}
    (member : statement ∈ body) : statement.Placed :=
  (allPlaced_iff body).mp placed statement member

end Stmt

/-- What is read keeps declarations to their places: statements are branches, and declarations occur
among the items of the top level and of blocks only. -/
theorem Grammar.placed (finish : Token) (source : List Token) :
    Inherited finish source (fun _ => True) (fun _ => Stmt.Branch) (fun _ => Stmt.Placed) where
  read _ _ := Reply.ensures_trivial _
  endless := True.intro
  print _ := ⟨fun _ => rfl, True.intro⟩
  expression _ := ⟨fun _ => rfl, True.intro⟩
  declare _ := True.intro
  block placed := ⟨fun _ => rfl, (Stmt.allPlaced_iff _).mpr placed⟩
  ifThen _ branch := ⟨fun _ => rfl, branch⟩
  ifElse _ trueBranch falseBranch := ⟨fun _ => rfl, trueBranch, falseBranch⟩
  whileLoop _ branch := ⟨fun _ => rfl, branch⟩
  breakLoop _ := ⟨fun _ => rfl, True.intro⟩
  item branch := branch.2

/-- The statements of a program are placed, whatever it was read from. -/
theorem Program.allPlaced_ofTokens (tokens : List Token) :
    Stmt.AllPlaced (Program.ofTokens tokens).statements :=
  (Stmt.allPlaced_iff _).mpr (Grammar.placed _ _).ofTokens

end BlockScript

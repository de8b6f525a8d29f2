import Essl.Typing.Expr

/-!
# Compound assignments and what they stand for

`a op= b` is checked by a search for the operator of its own, `a = a op b` as an operator between
two operands and then as a plain assignment. The problems come in another order: the compound
assignment looks first whether `a` may be written, the written out one whether there is an operator.
-/

namespace Essl

/-- What is wrong, in the order in which it is found. -/
def Noted.causes {α : Type} (x : Noted α) : List SemanticCause := x.problems.map (·.cause)

section

variable {left right : Expr} {leftType rightType : Ty} {compound base : Operator}
variable {op assign plain : Token}

/-- No compound assignment compares. -/
theorem equalityResult?_of_compound (hbase : compound.compound? = some base)
    (hplain : plain.kind = .operator base) : equalityResult? plain = none := by
  have hequal : base ≠ .equal := by rintro rfl; cases compound <;> cases hbase
  have hnotEqual : base ≠ .notEqual := by rintro rfl; cases compound <;> cases hbase
  simp [equalityResult?, Token.isOperator, hplain, hequal, hnotEqual]

/-- The place where the operator is missed plays no part. -/
theorem findOperator_causes (name : String) (types : List Ty) (here there : Location) :
    (findOperator name types here).causes = (findOperator name types there).causes ∧
      (findOperator name types here).value = (findOperator name types there).value := by
  unfold findOperator
  split <;> exact ⟨rfl, rfl⟩

theorem requireType_causes (expected actual : Option Ty) (here there : Location) :
    (requireType expected actual here).causes = (requireType expected actual there).causes := by
  unfold requireType
  split
  · split <;> rfl
  · rfl

/-- An operator between two typed operands is searched for by their types. -/
theorem typeOperator_pair (hleft : left.info.type = some leftType)
    (hright : right.info.type = some rightType) :
    (typeOperator op [left, right]).problems =
        (findOperator op.text [leftType, rightType] op.location).problems ∧
      (typeOperator op [left, right]).value.type =
        (findOperator op.text [leftType, rightType] op.location).value.map (·.returnType) := by
  have htypes : types? [left, right] = some [leftType, rightType] := by
    simp [types?, hleft, hright]
  simp only [typeOperator, htypes, Noted.problems_bind, Noted.value_bind]
  cases (findOperator op.text [leftType, rightType] op.location).value with
  | none => exact ⟨List.append_nil _, rfl⟩
  | some f => exact ⟨List.append_nil _, rfl⟩

/-- A compound assignment notes what its operator and then the assignment of the result would. -/
theorem checkCompound_causes (hbase : compound.compound? = some base)
    (hplain : plain.kind = .operator base) (htext : plain.text = base.text)
    (hleft : left.info.type = some leftType) (hright : right.info.type = some rightType)
    (location : Location) :
    (checkCompound base op leftType rightType right).causes =
      (typeBinary left plain right).causes ++
        (requireType leftType (typeBinary left plain right).value.type location).causes := by
  have hbinary : typeBinary left plain right = typeOperator plain [left, right] := by
    simp only [typeBinary, hleft, hright, equalityResult?_of_compound hbase hplain]
  obtain ⟨hproblems, htype⟩ : (typeOperator plain [left, right]).problems = _ ∧ _ :=
    typeOperator_pair hleft hright
  rw [htext] at hproblems htype
  obtain ⟨hcauses, hvalue⟩ :=
    findOperator_causes base.text [leftType, rightType] op.location plain.location
  simp only [Noted.causes] at hcauses ⊢
  rw [hbinary, hproblems, htype, checkCompound, Noted.problems_bind, List.map_append, hcauses,
    hvalue]
  congr 1
  cases (findOperator base.text [leftType, rightType] plain.location).value with
  | none => rfl
  | some f => exact requireType_causes leftType f.returnType right.location location

theorem typeAssignment_value (left : Expr) (op : Token) (right : Expr) :
    (typeAssignment left op right).value = .ofType left.info.type := by
  unfold typeAssignment
  dsimp only
  split
  · split <;> rfl
  · rfl

/-- An assignment notes first whether its target may be written. -/
theorem typeAssignment_plain (hassign : assign.kind = .operator .assign) (left right : Expr) :
    (typeAssignment left assign right).causes = (requireWritable left).causes ++
      (requireType left.info.type right.info.type right.location).causes := by
  have hnone : assign.kind.operator?.bind Operator.compound? = none := by
    rw [hassign]
    rfl
  unfold typeAssignment
  split
  · rename_i leftType rightType hleft hright
    simp [Noted.causes, hnone, hleft, hright, -bind_pure_comp]
  · rename_i hunknown
    have hquiet : (requireType left.info.type right.info.type right.location).problems = [] := by
      unfold requireType
      split
      · rename_i leftType rightType hleft hright
        exact absurd hright (hunknown leftType rightType hleft)
      · rfl
    simp [Noted.causes, hquiet, -bind_pure_comp]

theorem typeAssignment_compound (hop : op.kind = .operator compound)
    (hbase : compound.compound? = some base) (hleft : left.info.type = some leftType)
    (hright : right.info.type = some rightType) :
    (typeAssignment left op right).causes = (requireWritable left).causes ++
      (checkCompound base op leftType rightType right).causes := by
  have hcompound : op.kind.operator?.bind Operator.compound? = some base := by
    rw [hop]
    exact hbase
  simp [typeAssignment, hleft, hright, hcompound, Noted.causes, -bind_pure_comp]

/-- Where one side has no type only the target is looked at. -/
theorem typeAssignment_untyped (h : left.info.type = none ∨ right.info.type = none) :
    (typeAssignment left op right).causes = (requireWritable left).causes := by
  unfold typeAssignment
  split
  · rename_i leftType rightType hleft hright
    rw [hleft, hright] at h
    simp at h
  · simp [Noted.causes, -bind_pure_comp]

/-- The target is written in both; only whether that is said before or after the operator is
looked at differs. -/
theorem typeAssignment_expanded (hop : op.kind = .operator compound)
    (hbase : compound.compound? = some base) (hassign : assign.kind = .operator .assign)
    (hplain : plain.kind = .operator base) (htext : plain.text = base.text)
    {result : Expr} (hresult : result.info = (typeBinary left plain right).value) :
    (typeAssignment left op right).causes.Perm
      ((typeBinary left plain right).causes ++ (typeAssignment left assign result).causes) := by
  rw [typeAssignment_plain hassign, hresult]
  cases hleft : left.info.type with
  | none =>
      have hsilent : (typeBinary left plain right).causes = [] := by
        cases hright : right.info.type <;> simp only [typeBinary, hleft, hright] <;> rfl
      rw [typeAssignment_untyped (.inl hleft), hsilent]
      exact .of_eq (List.append_nil _).symm
  | some leftType =>
      cases hright : right.info.type with
      | none =>
          -- The operator takes over the type of the target, which is then right to assign.
          have hbinary : typeBinary left plain right = pure (.ofType leftType) := by
            simp only [typeBinary, hleft, hright]
          have hquiet : (requireType leftType leftType result.location).problems = [] := by
            simp [requireType]
          rw [typeAssignment_untyped (.inr hright), hbinary]
          exact .of_eq (by simp [Noted.causes, ExprInfo.ofType, hquiet])
      | some rightType =>
          rw [typeAssignment_compound hop hbase hleft hright,
            checkCompound_causes hbase hplain htext hleft hright result.location,
            ← List.append_assoc, ← List.append_assoc]
          exact List.perm_append_comm.append_right _

end

namespace Expr

variable {a : Expr} {c : Context} {compound base : Operator} {op assign plain : Token}

/-- For a target that is right by itself, `a op= b` and `a = a op b` say the same, and give the
assignment the same type. -/
theorem check_compoundAssignment (ha : (a.check c).problems = [])
    (hop : op.kind = .operator compound) (hbase : compound.compound? = some base)
    (hassign : assign.kind = .operator .assign) (hplain : plain.kind = .operator base)
    (htext : plain.text = base.text) (b : Expr) (compoundInfo assignInfo binaryInfo : ExprInfo) :
    let direct := (assignment compoundInfo a op b).check c
    let expanded := (assignment assignInfo a assign (binary binaryInfo a plain b)).check c
    direct.causes.Perm expanded.causes ∧ direct.value.info.type = expanded.value.info.type := by
  intro direct expanded
  let result : Expr := .binary (typeBinary (a.check c).value plain (b.check c).value).value
    (a.check c).value plain (b.check c).value
  have hassigned : (typeAssignment (a.check c).value op (b.check c).value).causes.Perm
      ((typeBinary (a.check c).value plain (b.check c).value).causes ++
        (typeAssignment (a.check c).value assign result).causes) :=
    typeAssignment_expanded hop hbase hassign hplain htext rfl
  have htype : ∀ (operator : Token) (right : Expr),
      (typeAssignment (a.check c).value operator right).value.type = (a.check c).value.info.type :=
    fun operator right => by rw [typeAssignment_value]; rfl
  have hdirect : direct.causes = (b.check c).causes ++
      (typeAssignment (a.check c).value op (b.check c).value).causes := by
    simp [direct, Expr.check, ha, Noted.causes, -bind_pure_comp]
  have hexpanded : expanded.causes = (b.check c).causes ++
      ((typeBinary (a.check c).value plain (b.check c).value).causes ++
        (typeAssignment (a.check c).value assign result).causes) := by
    simp [expanded, result, Expr.check, ha, Noted.causes, -bind_pure_comp]
  refine ⟨?_, (htype op _).trans (htype assign _).symm⟩
  rw [hdirect, hexpanded]
  exact hassigned.append_left _

/-- A built-in variable that may only be read, and an operand that no operator takes: the two
problems come in either order. -/
theorem check_compoundAssignment_fragCoord :
    let token : TokenKind → String → Token := fun kind text => ⟨kind, text, .whole text, false, true⟩
    let a := Expr.variable .none (token .identifier "gl_FragCoord")
    let b := literal .none (token .boolConstant "true")
    let direct := assignment .none a (token (.operator .plusAssign) "+=") b
    let expanded := assignment .none a (token (.operator .assign) "=")
      (binary .none a (token (.operator .plus) "+") b)
    let c := Context.empty .fragment .newestFirst
    (a.check c).problems = [] ∧ (direct.check c).causes.Perm (expanded.check c).causes ∧
      (direct.check c).value.info.type = (expanded.check c).value.info.type ∧
        (direct.check c).causes = [.readOnlyAssignment "gl_FragCoord",
          .noMatchingOperator "+(vec4,bool)"] ∧
        (expanded.check c).causes = [.noMatchingOperator "+(vec4,bool)",
          .readOnlyAssignment "gl_FragCoord"] := by
  intro token a b direct expanded c
  have ha : (a.check c).problems = [] := by decide +kernel
  have hop : (token (.operator .plusAssign) "+=").kind = .operator .plusAssign := rfl
  have hassign : (token (.operator .assign) "=").kind = .operator .assign := rfl
  have hplain : (token (.operator .plus) "+").kind = .operator .plus := rfl
  obtain ⟨hcauses, htype⟩ :=
    check_compoundAssignment ha hop rfl hassign hplain rfl b .none .none .none
  exact ⟨ha, hcauses, htype, by decide +kernel, by decide +kernel⟩

end Expr

end Essl

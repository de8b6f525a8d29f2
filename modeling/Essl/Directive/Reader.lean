import Essl.Directive.Section

/-!
# Reading through directives

Delivers the tokens of a shader that count, carrying out the directives among them.
-/

namespace Essl

/-- The tokens up to the end of a line, the errors met on the way to the next line, and what
comes then. -/
structure Line where
  tokens : List Token
  errors : List FrontError
  rest : Feed

/-- Reads up to the end of the line. -/
def Feed.line (feed : Feed) : Line :=
  let line := feed.deliveries.takeWhile (!·.token.firstInLine)
  let errors := line.flatMap Delivery.errors
  match feed.deliveries.dropWhile (!·.token.firstInLine) with
  | [] => ⟨line.map Delivery.token, errors ++ feed.trailing, .empty⟩
  | next :: rest =>
    ⟨line.map Delivery.token, errors ++ next.errors, ⟨⟨[], next.token⟩ :: rest, feed.trailing⟩⟩

theorem Feed.length_line_rest (feed : Feed) :
    feed.line.rest.deliveries.length ≤ feed.deliveries.length := by
  have h := (List.dropWhile_sublist (fun d : Delivery => !d.token.firstInLine)
    (l := feed.deliveries)).length_le
  unfold line
  split
  · simp [Feed.empty]
  · rename_i heq
    rw [heq] at h
    simpa using h

/-- A shader that is being read: the tokens not read yet and what directives have set up. -/
structure Reader where
  feed : Feed
  env : Environment

namespace Reader

/-- A directive starts with a `#` that is the first token of its line. -/
def startsDirective (token : Token) : Bool := token.firstInLine && token.isOperator .hash

/-- At the end of the shader every open conditional is faulty, the outermost first. -/
def finish (env : Environment) : Environment :=
  { env with
    sections := []
    errors := env.errors ++
      env.sections.reverse.map fun s => ⟨.directive .unclosedConditional, s.location⟩ }

/-- The next token that counts. -/
def next (r : Reader) : Option Token × Reader :=
  let env := r.env
  match _h : r.feed.deliveries with
  | [] => (none, ⟨.empty, finish { env with errors := env.errors ++ r.feed.trailing }⟩)
  | delivery :: rest =>
    let feed : Feed := ⟨rest, r.feed.trailing⟩
    let env := { env with errors := env.errors ++ delivery.errors }
    if startsDirective delivery.token then
      let line := feed.line
      let env := { env with errors := env.errors ++ line.errors }
      next ⟨line.rest, env.directive delivery.token line.tokens⟩
    else if env.isActive then (some delivery.token, ⟨feed, env⟩)
    else next ⟨feed, env⟩
termination_by r.feed.deliveries.length
decreasing_by
  · have := Feed.length_line_rest ⟨rest, r.feed.trailing⟩
    simp only [_h, List.length_cons]
    exact Nat.lt_succ_of_le this
  · simp [_h]

theorem length_lt_of_next {r r' : Reader} {t : Token} (h : r.next = (some t, r')) :
    r'.feed.deliveries.length < r.feed.deliveries.length := by
  fun_induction Reader.next r with
  | case1 => simp at h
  | case2 r env delivery rest heq feed env' _ line env'' ih =>
      have hlen : line.rest.deliveries.length ≤ rest.length := feed.length_line_rest
      rw [heq, List.length_cons]
      exact Nat.lt_succ_of_le (Nat.le_trans (Nat.le_of_lt (ih h)) hlen)
  | case3 r env delivery rest heq feed env' _ _ =>
      simp only [Prod.mk.injEq] at h
      simp [← h.2, heq, feed]
  | case4 r env delivery rest heq feed env' _ _ ih =>
      rw [heq, List.length_cons]
      exact Nat.lt_succ_of_lt (ih h)

/-- What waits for expansion beyond the tokens at hand is the rest of the shader. -/
def supply : Supply Reader where
  next := Reader.next
  macros r := r.env.macros
  report error r := { r with env := { r.env with errors := r.env.errors ++ [error] } }
  size r := r.feed.deliveries.length
  size_lt_of_next h := length_lt_of_next h

end Reader

end Essl

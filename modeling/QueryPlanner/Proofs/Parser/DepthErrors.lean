import QueryPlanner.Proofs.Parser.EntryAttempts
import Mathlib.Algebra.Ring.Int.Defs

namespace QueryPlanner
open Grammar ParserState

/-- The brackets open in front of a position, with the one that starts there if it opens. -/
def Source.levelAt (source : Source) (position : Nat) : Int :=
  TokenKind.balance ((source.readable.filter (·.start < position)).map Token.kind) +
    ((source.readable.filter (·.start = position)).map (·.kind.opening)).sum

theorem Source.levelAt_of_split {source : Source} {front back : List Token} {t : Token}
    (split : source.readable = front ++ t :: back) :
    source.levelAt t.start = TokenKind.balance (front.map Token.kind) + t.kind.opening := by
  obtain ⟨above, below⟩ := Source.readable_apart split
  have left : source.readable.filter (·.start < t.start) = front := by
    have none : back.filter (·.start < t.start) = [] :=
      List.filter_eq_nil_iff.2 fun u member => by simpa using Nat.le_of_lt (below u member)
    rw [split, List.filter_append, List.filter_eq_self.2 (by simpa using above), List.filter_cons_of_neg (by simp), none,
      List.append_nil]
  have here : source.readable.filter (·.start = t.start) = [t] := by
    have none : front.filter (·.start = t.start) = [] :=
      List.filter_eq_nil_iff.2 fun u member => by simpa using Nat.ne_of_lt (above u member)
    have none' : back.filter (·.start = t.start) = [] :=
      List.filter_eq_nil_iff.2 fun u member => by simpa using Nat.ne_of_gt (below u member)
    rw [split, List.filter_append, none, List.filter_cons_of_pos (by simp), none', List.nil_append]
  rw [levelAt, left, here, List.map_singleton, List.sum_singleton]

def Diagnostic.IsSyntactic (source : Source) (d : Diagnostic) : Prop :=
  (∃ fault, d = .lexical source fault) ∨ ∃ token text expected, d = .grammar source token text expected

def Diagnostic.tooDeep (source : Source) (o : ParseOptions) (position : Nat) : Diagnostic :=
  ⟨.depthLimit o.depthLimit, .position source position⟩

namespace Comparison
open QueryPlanner.Parser

variable {α : Type} {c : Comparison} {source : Source} {E : Expectation} {entry body : Parser α} {d : Diagnostic}

theorem entry_too_deep (offset : E.offset = 0)
    (opens : ∀ o, entry (start source o) = (expectToken .startOfFile >>= fun _ => body) (start source o))
    (attempt : ∀ s, s.Stands c.limited 0 → c.Attempt E s body body) (failed : parse entry source c.limited = .error d) :
    d.IsSyntactic source ∨ ∃ q, d = .tooDeep source c.limited q ∧ (c.limited.depthLimit < source.levelAt q ∨
      c.sets ∧ c.limited.depthLimit = source.levelAt q ∧ ∃ t text, t.start = q ∧ t.kind.opens = false ∧
        parse entry source c.free = .error (.grammar source t text (some TokenKind.braceOpen.text))) := by
  obtain ⟨fault, rfl⟩ | ⟨most, token, text, -, rfl⟩ | ⟨s, enters, fails⟩ := entry_fails (opens _) attempt failed
  · exact .inl (.inl ⟨fault, rfl⟩)
  · exact .inl (.inr ⟨token, text, none, rfl⟩)
  · have level {front back : List Token} {t : Token} (ahead : s.ahead = front ++ t :: back) : source.levelAt t.start =
        s.depth + E.offset + TokenKind.balance (front.map Token.kind) + t.kind.opening := by
      rw [Source.levelAt_of_split (enters.ahead.symm.trans ahead), enters.depth, offset]
      omega
    rw [← enters.source]
    cases fails with
    | lexical fault => exact .inl (.inl ⟨fault, rfl⟩)
    | overrun token text _ => exact .inl (.inr ⟨token, text, none, rfl⟩)
    | unexpected text expected _ _ _ => exact .inl (.inr ⟨_, text, expected, rfl⟩)
    | deep ahead full =>
        refine .inr ⟨_, rfl, .inl ?_⟩
        rw [enters.source, level ahead]
        exact full
    | @missing front back t ahead sets full plain fails =>
        refine .inr ⟨_, rfl, .inr ⟨sets, ?_, t, ?_⟩⟩
        · have closed : t.kind.opening = 0 := by rw [TokenKind.opening, plain]; rfl
          rw [enters.source, level ahead, closed, Int.add_zero]
          exact full
        -- The parser that is allowed more levels comes to the same token.
        have split : source.readable = front ++ t :: back := enters.ahead.symm.trans ahead
        have begins : front ++ [t] <+: source.readable := ⟨back, by rw [split, List.append_assoc, List.singleton_append]⟩
        obtain ⟨fault, s', none, -⟩ | ⟨most, token, text, s', limit, -⟩ | ⟨s₂, enters₂, opened⟩ := enter source c.free
        · simp [none] at split
        · rw [c.tokens] at limit
          contradiction
        · obtain ⟨text, s₂', failed₂⟩ := fails s₂ ⟨enters.depth ▸ enters₂.toStands, enters₂.source.trans enters.source.symm,
            enters₂.lastToken.trans enters.lastToken.symm, enters.ahead ▸ begins, enters₂.ahead ▸ begins⟩
          rw [enters.source] at failed₂ ⊢
          exact ⟨text, rfl, plain, parse_error.2 ⟨s₂', by rw [opens, Run.bind_of_ok opened, failed₂]⟩⟩

end Comparison

open QueryPlanner.Parser Comparison

namespace ParseOptions

def allowing (o : ParseOptions) (levels : Int) : ParseOptions := { o with maxTokens := none, maxDepth := some levels }

end ParseOptions

def Comparison.allowing (o : ParseOptions) (levels : Int) (sets : Prop) (more : o.depthLimit < levels) : Comparison where
  limited := o
  free := o.allowing levels
  sets := sets
  locations := rfl
  definitions := rfl
  tokens := rfl
  levels := more

namespace Diagnostic

variable {source : Source} {o : ParseOptions} {q q' : Nat}

theorem not_isSyntactic_tooDeep : ¬ (tooDeep source o q).IsSyntactic source := by
  rintro (⟨fault, same⟩ | ⟨token, text, expected, same⟩)
  · cases same
  · cases same

theorem tooDeep_inj (same : tooDeep source o q = tooDeep source o q') : q = q' := by
  cases same
  rfl

end Diagnostic

/-- A depth error means that more brackets are open than levels are allowed, or that as many are open and a selection
set is missing. -/
theorem depth_errors_tell_levels (source : Source) (o : ParseOptions) :
    (∀ d, Document.parse source o = .error d → d.IsSyntactic source ∨ ∃ q, d = .tooDeep source o q ∧
      (o.depthLimit < source.levelAt q ∨ o.depthLimit = source.levelAt q ∧ ∀ levels, o.depthLimit < levels →
        ∃ t text, t.start = q ∧ t.kind.opens = false ∧
          Document.parse source (o.allowing levels) = .error (.grammar source t text (some TokenKind.braceOpen.text)))) ∧
    (∀ d, Value.parse source o = .error d →
      d.IsSyntactic source ∨ ∃ q, d = .tooDeep source o q ∧ o.depthLimit < source.levelAt q) ∧
    ∀ d, TypeRef.parse source o = .error d →
      d.IsSyntactic source ∨ ∃ q, d = .tooDeep source o q ∧ o.depthLimit < source.levelAt q := by
  have next : o.depthLimit < o.depthLimit + 1 := Int.lt_succ _
  refine ⟨fun d failed => ?_, fun d failed => ?_, fun d failed => ?_⟩
  · have told (levels : Int) (more : o.depthLimit < levels) := entry_too_deep (c := .allowing o levels True more)
      (E := { viable := _ }) rfl (fun _ => document_start)
      (fun s stands => definitionsFrom_attempt trivial .startOfFile stands) failed
    -- One level more tells which of the two it is, and then any number of levels does.
    obtain syntactic | ⟨q, rfl, deep | ⟨-, level, -⟩⟩ := told _ next
    · exact .inl syntactic
    · exact .inr ⟨q, rfl, .inl deep⟩
    · refine .inr ⟨q, rfl, .inr ⟨level, fun levels more => ?_⟩⟩
      obtain syntactic | ⟨q', same, deep | ⟨-, -, missing⟩⟩ := told levels more
      · exact absurd syntactic Diagnostic.not_isSyntactic_tooDeep
      · obtain rfl := Diagnostic.tooDeep_inj same
        exact absurd deep (Int.not_lt.2 (Int.le_of_eq level.symm))
      · obtain rfl := Diagnostic.tooDeep_inj same
        exact missing
  · obtain syntactic | ⟨q, rfl, deep | ⟨never, -⟩⟩ := entry_too_deep (c := .allowing o _ False next)
      (E := { viable := _ }) rfl (fun _ => rfl) (fun s stands => toEnd_attempt (value_reads false 0) stands) failed
    · exact .inl syntactic
    · exact .inr ⟨q, rfl, deep⟩
    · exact never.elim
  · obtain syntactic | ⟨q, rfl, deep | ⟨never, -⟩⟩ := entry_too_deep (c := .allowing o _ False next)
      (E := { viable := _ }) rfl (fun _ => rfl) (fun s stands => toEnd_attempt (typeRef_reads 0) stands) failed
    · exact .inl syntactic
    · exact .inr ⟨q, rfl, deep⟩
    · exact never.elim

namespace MissingSet

def source : Source := { body := "\x7b ... on A \x7d" }

def oneLevel : ParseOptions := { maxDepth := some 1 }

theorem too_deep_at_one_bracket :
    Document.parse source oneLevel = .error (.tooDeep source oneLevel 11) ∧ source.levelAt 11 = 1 := by
  refine ⟨Run.error?_eq_some.1 ?_, ?_⟩ <;> decide +kernel

def lists : Source := { body := "[1 [" }

theorem tells_levels :
    (∀ levels, 1 < levels → ∃ t text, t.start = 11 ∧ t.kind.opens = false ∧ Document.parse source (oneLevel.allowing levels) =
      .error (.grammar source t text (some TokenKind.braceOpen.text))) ∧
    Value.parse lists oneLevel = .error (.tooDeep lists oneLevel 3) ∧ 1 < lists.levelAt 3 := by
  have failed : Document.parse source oneLevel = .error (.tooDeep source oneLevel 11) := Run.error?_eq_some.1 (by decide +kernel)
  have failed' : Value.parse lists oneLevel = .error (.tooDeep lists oneLevel 3) := Run.error?_eq_some.1 (by decide +kernel)
  refine ⟨?_, failed', ?_⟩
  · obtain syntactic | ⟨q, same, deep | ⟨-, missing⟩⟩ := (depth_errors_tell_levels source oneLevel).1 _ failed
    · exact absurd syntactic Diagnostic.not_isSyntactic_tooDeep
    · obtain rfl := Diagnostic.tooDeep_inj same
      exact absurd deep (by decide +kernel)
    · obtain rfl := Diagnostic.tooDeep_inj same
      exact missing
  · obtain syntactic | ⟨q, same, deep⟩ := (depth_errors_tell_levels lists oneLevel).2.1 _ failed'
    · exact absurd syntactic Diagnostic.not_isSyntactic_tooDeep
    · obtain rfl := Diagnostic.tooDeep_inj same
      exact deep

end MissingSet

end QueryPlanner

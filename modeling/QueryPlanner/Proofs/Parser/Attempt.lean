import QueryPlanner.Proofs.Parser.Lists
import QueryPlanner.Proofs.Syntax.Brackets
import QueryPlanner.Proofs.Syntax.Viable

/-!
# Attempts at a production

What a run of a production takes, or why it fails. A failed run is told by the tokens before the one it is reported at:
whether they begin a derivation, and how many brackets they leave open. It is compared with runs on all sources that
have the tokens up to there in common, under options that allow more.
-/

namespace QueryPlanner
open Grammar
open Lexeme (mark word)

namespace TokenStream

theorem lexemes_eq {stream : TokenStream} (ends : stream.Ends) : stream.lexemes = stream.tokens.flatMap Token.written := by
  induction stream with
  | endOfFile token => simp [lexemes, tokens, Token.written, show token.kind = .endOfFile from ends]
  | fault => rfl
  | cons token rest ih => simp [lexemes, tokens, Token.written, ends.1, ih ends.2]

end TokenStream

def TokenKind.opening (kind : TokenKind) : Int := if kind.opens then 1 else 0

theorem TokenKind.opening_nonneg (kind : TokenKind) : 0 ≤ kind.opening := by
  unfold opening
  split_ifs <;> decide

theorem TokenKind.balance_written (ts : List Token) :
    balance ((ts.flatMap Token.written).map Lexeme.kind) = balance (ts.map Token.kind) := by
  induction ts with
  | nil => rfl
  | cons t ts ih =>
      rw [List.flatMap_cons, List.map_append, balance_append, ih, List.map_cons, balance_cons t.kind]
      congr 1
      unfold Token.written
      split_ifs with last
      · rw [last]
        rfl
      · rfl

namespace ParserState

variable {s s' : ParserState}

def ahead (s : ParserState) : List Token :=
  if s.token.kind = .endOfFile then [s.token] else s.token :: s.upcoming.tokens

theorem ahead_eq_cons (s : ParserState) : ∃ rest, s.ahead = s.token :: rest := by
  unfold ahead
  split_ifs
  · exact ⟨_, rfl⟩
  · exact ⟨_, rfl⟩

theorem ahead_split (s : ParserState) : ∃ rest, s.ahead = [] ++ s.token :: rest := s.ahead_eq_cons

structure Settled (s : ParserState) : Prop extends s.Valid where
  lasting : s.token.kind = .endOfFile → s.upcoming = .endOfFile s.token

theorem Settled.remaining_eq (settled : s.Settled) : s.remaining = s.ahead.flatMap Token.written := by
  unfold remaining ahead
  split_ifs with last
  · rw [settled.lasting last, TokenStream.lexemes]
    simp
  · rw [List.flatMap_cons, TokenStream.lexemes_eq settled.ends]

structure Stands (o : ParseOptions) (k : Nat) (s : ParserState) : Prop extends s.Settled where
  options : s.options = o
  depth : s.depth = k

end ParserState

open ParserState

structure Comparison where
  limited : ParseOptions
  free : ParseOptions
  sets : Prop
  locations : free.noLocation = limited.noLocation
  definitions : free.allowFragmentVariables = limited.allowFragmentVariables
  tokens : free.maxTokens = none
  levels : limited.depthLimit < free.depthLimit

/-- What is known of the tokens before a run: which ones may follow, and the brackets open since its level began. -/
structure Expectation where
  viable : List Lexeme → Prop
  offset : Int := 0

namespace Expectation

def after (E : Expectation) (ls : List Lexeme) : Expectation where
  viable := fun ls' => E.viable (ls ++ ls')
  offset := E.offset + TokenKind.balance (ls.map Lexeme.kind)

def behind (E : Expectation) (ls : List Lexeme) : Expectation := { E with viable := fun ls' => E.viable (ls ++ ls') }

theorem after_eq_behind {E : Expectation} {ls : List Lexeme} (matched : Bracketed ls) : E.after ls = E.behind ls := by
  rw [after, behind, matched.balance_eq_zero, Int.add_zero]

end Expectation

namespace Comparison

variable (c : Comparison)

def room (k : Nat) : Nat := (c.limited.depthLimit - k).toNat

def room' (k : Nat) : Nat := (c.free.depthLimit - k).toNat

structure Beside (us : List Token) (s t : ParserState) : Prop where
  stands : t.Stands c.free s.depth
  source : t.source = s.source
  lastToken : t.lastToken = s.lastToken
  left : us <+: s.ahead
  right : us <+: t.ahead

/-- Why a run fails at a state, and how the other parser does beside it. -/
inductive Fails {α : Type} (E : Expectation) (s : ParserState) (q : Parser α) : Diagnostic → Prop
  | lexical (fault : LexicalFault) : Fails E s q (.lexical s.source fault)
  | overrun {most : Int} (token : Token) (text : Text) : c.limited.maxTokens = some most →
      Fails E s q (.grammar s.source token text)
  | unexpected {front back : List Token} {t : Token} (text : Text) (expected : Option Text) :
      s.ahead = front ++ t :: back → E.viable (front.flatMap Token.written) →
      (∀ s₂, c.Beside (front ++ [t]) s s₂ → ∀ a s₂', q s₂ ≠ .ok a s₂') →
      Fails E s q (.grammar s.source t text expected)
  | deep {front back : List Token} {t : Token} : s.ahead = front ++ t :: back →
      c.limited.depthLimit < s.depth + E.offset + TokenKind.balance (front.map Token.kind) + t.kind.opening →
      Fails E s q ⟨.depthLimit c.limited.depthLimit, .position s.source t.start⟩
  | missing {front back : List Token} {t : Token} : s.ahead = front ++ t :: back → c.sets →
      c.limited.depthLimit = s.depth + E.offset + TokenKind.balance (front.map Token.kind) → t.kind.opens = false →
      (∀ s₂, c.Beside (front ++ [t]) s s₂ → ∃ text s₂',
        q s₂ = .error (.grammar s.source t text (some TokenKind.braceOpen.text)) s₂') →
      Fails E s q ⟨.depthLimit c.limited.depthLimit, .position s.source t.start⟩

def Tells {α : Type} (E : Expectation) (s : ParserState) (q : Parser α) : EStateM.Result Diagnostic ParserState α → Prop
  | .ok a s' => s'.Stands c.limited s.depth ∧ s'.source = s.source ∧ ∃ ts, s.ahead = ts ++ s'.ahead ∧
      ∀ us s₂, us ≠ [] → c.Beside (ts ++ us) s s₂ → ∃ s₂', q s₂ = .ok a s₂' ∧ c.Beside us s' s₂'
  | .error d _ => c.Fails E s q d

def Attempt {α : Type} (E : Expectation) (s : ParserState) (p q : Parser α) : Prop := c.Tells E s q (p s)

end Comparison

namespace Comparison

variable {c : Comparison} {E E₁ : Expectation} {s s₂ : ParserState} {α β : Type} {p p' q q' : Parser α}
  {f g : α → Parser β} {us ts : List Token} {kind : TokenKind} {k : Nat}

theorem Beside.token_eq (beside : c.Beside us s s₂) (some : us ≠ []) : s₂.token = s.token := by
  obtain ⟨u, us, rfl⟩ := List.exists_cons_of_ne_nil some
  obtain ⟨rest, left⟩ := beside.left
  obtain ⟨rest', right⟩ := beside.right
  obtain ⟨tail, ahead⟩ := s.ahead_eq_cons
  obtain ⟨tail', ahead'⟩ := s₂.ahead_eq_cons
  rw [ahead] at left
  rw [ahead'] at right
  rw [← (List.cons.inj left).1, ← (List.cons.inj right).1]

theorem Attempt.congr (same : p s = p' s) (same' : ∀ us s₂, us ≠ [] → c.Beside us s s₂ → q s₂ = q' s₂)
    (attempt : c.Attempt E s p' q') : c.Attempt E s p q := by
  unfold Attempt at attempt ⊢
  rw [same]
  cases run : p' s with
  | ok a s' =>
      rw [run] at attempt
      obtain ⟨stands, source, ts, ahead, next⟩ := attempt
      refine ⟨stands, source, ts, ahead, fun us s₂ some beside => ?_⟩
      rw [same' _ s₂ (List.append_ne_nil_of_right_ne_nil ts some) beside]
      exact next us s₂ some beside
  | error d s' =>
      rw [run] at attempt
      cases attempt with
      | lexical fault => exact .lexical fault
      | overrun token text most => exact .overrun token text most
      | unexpected text expected ahead viable fails =>
          refine .unexpected text expected ahead viable fun s₂ beside => ?_
          rw [same' _ s₂ (by simp) beside]
          exact fails s₂ beside
      | deep ahead full => exact .deep ahead full
      | missing ahead sets full plain fails =>
          refine .missing ahead sets full plain fun s₂ beside => ?_
          rw [same' _ s₂ (by simp) beside]
          exact fails s₂ beside

theorem Attempt.pure (stands : s.Stands c.limited k) (a : α) : c.Attempt E s (Pure.pure a) (Pure.pure a) :=
  ⟨stands.depth ▸ stands, rfl, [], rfl, fun _ s₂ _ beside => ⟨s₂, rfl, beside⟩⟩

theorem Fails.bind {ls : List Lexeme} {s' : ParserState} {a : α} {d : Diagnostic} (fails : c.Fails (E.after ls) s' (g a) d)
    (ls_eq : ls = ts.flatMap Token.written) (depth : s'.depth = s.depth) (source : s'.source = s.source)
    (ahead : s.ahead = ts ++ s'.ahead)
    (next : ∀ us s₂, us ≠ [] → c.Beside (ts ++ us) s s₂ → ∃ s₂', q s₂ = .ok a s₂' ∧ c.Beside us s' s₂') :
    c.Fails E s (q >>= g) d := by
  have balance (front : List Token) : s'.depth + (E.after ls).offset + TokenKind.balance (front.map Token.kind) =
      s.depth + E.offset + TokenKind.balance ((ts ++ front).map Token.kind) := by
    have offset : (E.after ls).offset = E.offset + TokenKind.balance (ts.map Token.kind) := by
      rw [← TokenKind.balance_written, ← ls_eq]
      rfl
    rw [List.map_append, TokenKind.balance_append, offset, depth]
    omega
  have whole {front back : List Token} {t : Token} (ahead' : s'.ahead = front ++ t :: back) :
      s.ahead = (ts ++ front) ++ t :: back := by
    rw [ahead, ahead', List.append_assoc]
  have beside {front : List Token} {t : Token} {s₂ : ParserState} (beside : c.Beside ((ts ++ front) ++ [t]) s s₂) :
      ∃ s₂', q s₂ = .ok a s₂' ∧ c.Beside (front ++ [t]) s' s₂' :=
    next _ s₂ (by simp) (by rwa [← List.append_assoc])
  cases fails with
  | lexical fault => exact source ▸ .lexical fault
  | overrun token text most => exact source ▸ .overrun token text most
  | @unexpected front back t text expected ahead' viable fails =>
      have viable : E.viable ((ts ++ front).flatMap Token.written) := by
        rw [List.flatMap_append, ← ls_eq]
        exact viable
      refine source ▸ .unexpected text expected (whole ahead') viable fun s₂ shared b s₂' run => ?_
      obtain ⟨s₁, run₁, beside⟩ := beside shared
      rw [Run.bind_of_ok run₁] at run
      exact fails s₁ beside b s₂' run
  | deep ahead' full => exact source ▸ .deep (whole ahead') (balance _ ▸ full)
  | missing ahead' sets full plain fails =>
      refine source ▸ .missing (whole ahead') sets (balance _ ▸ full) plain fun s₂ shared => ?_
      obtain ⟨s₁, run₁, beside⟩ := beside shared
      obtain ⟨text, s₂', run⟩ := fails s₁ beside
      exact ⟨text, s₂', by rw [Run.bind_of_ok run₁, run, source]⟩

theorem Fails.weaken {d : Diagnostic} (fails : c.Fails E₁ s q d) (viable : ∀ ls, E₁.viable ls → E.viable ls)
    (offset : E₁.offset = E.offset) : c.Fails E s q d := by
  cases fails with
  | lexical fault => exact .lexical fault
  | overrun token text most => exact .overrun token text most
  | unexpected text expected ahead begins fails => exact .unexpected text expected ahead (viable _ begins) fails
  | deep ahead full => exact .deep ahead (offset ▸ full)
  | missing ahead sets full plain fails => exact .missing ahead sets (offset ▸ full) plain fails

theorem Fails.then {d : Diagnostic} (fails : c.Fails E s q d) : c.Fails E s (q >>= g) d := by
  cases fails with
  | lexical fault => exact .lexical fault
  | overrun token text most => exact .overrun token text most
  | unexpected text expected ahead begins fails =>
      refine .unexpected text expected ahead begins fun s₂ beside b s₂' run => ?_
      obtain ⟨a, s₁, run, -⟩ := Run.bind_ok.1 run
      exact fails s₂ beside a s₁ run
  | deep ahead full => exact .deep ahead full
  | missing ahead sets full plain fails =>
      refine .missing ahead sets full plain fun s₂ beside => ?_
      obtain ⟨text, s₂', run⟩ := fails s₂ beside
      exact ⟨text, s₂', Run.bind_of_error run⟩

theorem Attempt.weaken (attempt : c.Attempt E₁ s p q) (viable : ∀ ls, E₁.viable ls → E.viable ls)
    (offset : E₁.offset = E.offset) : c.Attempt E s p q := by
  unfold Attempt at attempt ⊢
  cases run : p s with
  | ok a s' => rwa [run] at attempt
  | error d s' =>
      rw [run] at attempt
      exact Fails.weaken attempt viable offset

theorem Attempt.bind (first : c.Attempt E s p q)
    (next : ∀ a s' ts, p s = .ok a s' → s.ahead = ts ++ s'.ahead → s'.Stands c.limited s.depth →
      c.Attempt (E.after (ts.flatMap Token.written)) s' (f a) (g a)) :
    c.Attempt E s (p >>= f) (q >>= g) := by
  unfold Attempt at first ⊢
  cases run : p s with
  | error d s' =>
      rw [run] at first
      rw [Run.bind_of_error run]
      exact Fails.then first
  | ok a s' =>
      rw [run] at first
      obtain ⟨stands, source, ts, ahead, beside⟩ := first
      rw [Run.bind_of_ok run]
      have second := next a s' ts run ahead stands
      unfold Attempt at second
      cases run' : f a s' with
      | error d s'' =>
          rw [run'] at second
          exact Fails.bind second rfl stands.depth source ahead beside
      | ok b s'' =>
          rw [run'] at second
          obtain ⟨stands', source', ts', ahead', beside'⟩ := second
          refine ⟨stands.depth ▸ stands', source'.trans source, ts ++ ts', ?_, fun us s₂ some shared => ?_⟩
          · rw [ahead, ahead', List.append_assoc]
          · rw [List.append_assoc] at shared
            obtain ⟨s₂', ran, shared'⟩ := beside _ s₂ (List.append_ne_nil_of_right_ne_nil ts' some) shared
            obtain ⟨s₂'', ran', shared''⟩ := beside' us s₂' some shared'
            exact ⟨s₂'', by rw [Run.bind_of_ok ran, ran'], shared''⟩

end Comparison

end QueryPlanner

import QueryPlanner.Proofs.Parser.Acceptance
import QueryPlanner.Proofs.Parser.Widening
import QueryPlanner.Proofs.Syntax.Depth

namespace QueryPlanner
open Grammar

def ParseOptions.withLevels (o : ParseOptions) (levels : Int) : ParseOptions :=
  { o with noLocation := false, maxTokens := none, maxDepth := some levels }

/-- Limits decide whether the entry point returns, and not what. -/
structure LimitsAreConservative (entry : Source → ParseOptions → Except Diagnostic α) (bare : α → α) (depth : α → Nat) :
    Prop where
  returns_iff : ∀ source (o : ParseOptions) made, entry source o = .ok made ↔
    ∃ levels whole tokens, entry source (o.withLevels levels) = .ok whole ∧ source.tokens = .ok tokens ∧
      o.allows (tokens.countP (·.kind ≠ .endOfFile)) ∧ depth whole ≤ o.depthLimit.toNat ∧
      made = if o.noLocation then bare whole else whole
  raised : ∀ source (o o' : ParseOptions) made, o.IsWithin o' → o.noLocation = o'.noLocation →
    entry source o = .ok made → entry source o' = .ok made

theorem Source.lexemes_length {source : Source} {ls : List Lexeme} (read : source.lexemes = .ok ls) :
    ∃ tokens, source.tokens = .ok tokens ∧ tokens.countP (·.kind ≠ .endOfFile) = ls.length := by
  unfold Source.lexemes at read
  cases whole : source.tokens with
  | error d =>
      rw [whole] at read
      contradiction
  | ok tokens =>
      rw [whole] at read
      obtain rfl := Except.ok.inj read
      exact ⟨tokens, rfl, by rw [List.length_map, List.countP_eq_length_filter]⟩

theorem ParseOptions.isShownBy_withLevels {o : ParseOptions} {levels : Int} (enough : o.depthLimit ≤ levels) :
    o.IsShownBy (o.withLevels levels) where
  tokens := fun count _ => Parser.allows_of_unlimited rfl count
  levels := enough
  definitions := rfl
  locations := rfl

namespace Parser

theorem parse_follows {o o' : ParseOptions} {view : α → α} {p : Parser α} {source : Source} {made : α}
    (follows : Follows o o' view p p) (run : parse p source o = .ok made) :
    ∃ whole, parse p source o' = .ok whole ∧ made = view whole := by
  obtain ⟨s, run⟩ := parse_ok.1 run
  obtain ⟨-, whole, run', same⟩ := follows rfl run
  exact ⟨whole, parse_ok.2 ⟨_, run'⟩, same⟩

section
variable {p : Parser α} {bare : α → α} {depth : α → Nat} {G : Bool → List Lexeme → α → Prop}
  (accepts : ∀ source (o : ParseOptions) tree, (∃ made, parse p source o = .ok made ∧ bare made = tree) ↔
    ∃ ls, source.lexemes = .ok ls ∧ o.allows ls.length ∧ G o.allowFragmentVariables ls tree ∧
      depth tree ≤ o.depthLimit.toNat)
  (follows : ∀ {o o' : ParseOptions}, o.IsShownBy o' → Follows o o' (bareIf o.noLocation bare) p p)
  (depth_bare : ∀ tree, depth (bare tree) = depth tree)
include accepts follows depth_bare

theorem parse_returns_iff (source : Source) (o : ParseOptions) (made : α) : parse p source o = .ok made ↔
    ∃ levels whole tokens, parse p source (o.withLevels levels) = .ok whole ∧ source.tokens = .ok tokens ∧
      o.allows (tokens.countP (·.kind ≠ .endOfFile)) ∧ depth whole ≤ o.depthLimit.toNat ∧
      made = if o.noLocation then bare whole else whole := by
  constructor
  · intro run
    obtain ⟨whole, run', same⟩ := parse_follows (follows (ParseOptions.isShownBy_withLevels (Int.le_refl _))) run
    obtain ⟨ls, read, allowed, -, low⟩ := (accepts source o _).1 ⟨made, run, rfl⟩
    obtain ⟨tokens, tokens_read, count⟩ := Source.lexemes_length read
    have same : made = if o.noLocation then bare whole else whole := by
      rw [same]
      cases o.noLocation <;> rfl
    refine ⟨_, whole, tokens, run', tokens_read, count ▸ allowed, ?_, same⟩
    rw [depth_bare, same] at low
    split_ifs at low
    · rwa [depth_bare] at low
    · exact low
  · rintro ⟨levels, whole, tokens, run, tokens_read, allowed, low, rfl⟩
    obtain ⟨ls, read, -, derives, -⟩ := (accepts source _ _).1 ⟨whole, run, rfl⟩
    obtain ⟨tokens', tokens_read', count⟩ := Source.lexemes_length read
    obtain rfl := Except.ok.inj (tokens_read.symm.trans tokens_read')
    obtain ⟨made, returned, -⟩ := (accepts source o (bare whole)).2 ⟨ls, read, count ▸ allowed, derives, by rwa [depth_bare]⟩
    -- Both runs are followed by one that allows the levels of either.
    have here : o.depthLimit ≤ max levels o.depthLimit := Int.le_max_right _ _
    have there : (o.withLevels levels).depthLimit ≤ max levels o.depthLimit := Int.le_max_left _ _
    obtain ⟨whole₁, run₁, same₁⟩ := parse_follows (follows (ParseOptions.isShownBy_withLevels here)) returned
    obtain ⟨whole₂, run₂, same₂⟩ := parse_follows (follows (ParseOptions.isShownBy_withLevels there)) run
    obtain rfl : whole₁ = whole₂ := Except.ok.inj (run₁.symm.trans run₂)
    obtain rfl : whole = whole₁ := same₂
    rw [returned, same₁]
    cases o.noLocation <;> rfl

theorem limitsAreConservative_of : LimitsAreConservative (parse p) bare depth where
  returns_iff := parse_returns_iff accepts follows depth_bare
  raised := by
    intro source o o' made wider same run
    obtain ⟨levels, whole, tokens, run', read, allowed, low, rfl⟩ :=
      (parse_returns_iff accepts follows depth_bare source o made).1 run
    have low' : depth whole ≤ o'.depthLimit.toNat := Nat.le_trans low (Int.toNat_le_toNat wider.levels)
    have unlimited : o'.withLevels levels = o.withLevels levels := by
      rw [ParseOptions.withLevels, ParseOptions.withLevels, wider.definitions]
    refine (parse_returns_iff accepts follows depth_bare source o' _).2
      ⟨levels, whole, tokens, unlimited ▸ run', read, wider.tokens _ allowed, low', by rw [same]⟩

end

theorem limits_are_conservative :
    LimitsAreConservative @Document.parse Document.bare Document.depth ∧
    LimitsAreConservative @Value.parse Value.bare Value.depth ∧
    LimitsAreConservative @TypeRef.parse TypeRef.bare TypeRef.depth := by
  refine ⟨?_, ?_, ?_⟩
  · exact limitsAreConservative_of (fun _ _ _ => document_accepts_iff) document_follows Document.depth_bare
  · exact limitsAreConservative_of (G := fun _ => IsValue false) (fun _ _ _ => Value.accepts_iff)
      (fun wider => whole_follows wider (value_follows wider false)) Value.depth_bare
  · exact limitsAreConservative_of (G := fun _ => IsTypeRef) (fun _ _ _ => TypeRef.accepts_iff)
      (fun wider => whole_follows wider (typeRef_follows wider)) TypeRef.depth_bare

example : let source : Source := { body := "\x7b a(b: [\x7b c: 1 \x7d]) \x7d" }
    (Document.parse source { maxTokens := some 14, maxDepth := some 3 }).isOk = true ∧
    (Document.parse source { maxTokens := some 13, maxDepth := some 3 }).isOk = false ∧
    (Document.parse source { maxTokens := some 14, maxDepth := some 2 }).isOk = false := by decide +kernel

end Parser

end QueryPlanner

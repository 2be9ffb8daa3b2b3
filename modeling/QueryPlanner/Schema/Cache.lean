import QueryPlanner.Schema.Basic

namespace QueryPlanner

abbrev MetadataCache := List (Text × Option FieldMetadata)

namespace MetadataCache

def ask (provider : MetadataProvider) (typeName field : Text) (cache : MetadataCache) :
    Option FieldMetadata × MetadataCache :=
  let key := MetadataProvider.key typeName field
  match cache.lookup key with
  | some answer => (answer, cache)
  | none =>
    let answer := provider.field? typeName field
    (answer, (key, answer) :: cache)

def askAll (provider : MetadataProvider) (cache : MetadataCache) :
    List (Text × Text) → List (Option FieldMetadata) × MetadataCache
  | [] => ([], cache)
  | (typeName, field) :: rest =>
    let (answer, cache) := ask provider typeName field cache
    let (answers, cache) := askAll provider cache rest
    (answer :: answers, cache)

end MetadataCache

end QueryPlanner

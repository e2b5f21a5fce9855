import EagerLoad.Digest.Blake3
import EagerLoad.Plan.Compile

/-! # Cache keys

A key names the configuration, the base table, and the hash of everything that decides the rows: the
type, the requests in the order of the plan, and the base statement with its bindings. -/
namespace EagerLoad

namespace CacheKey

/-- What is hashed, its fields in a fixed order. -/
def material (p : Plan) (s : Statement) : Json :=
  .obj
    [("entity", .str p.entity.type),
      ("relations", .arr (p.relations.map RelationRequest.toJson)),
      ("counts", .arr (p.counts.map CountRequest.toJson)),
      ("aggregates", .arr (p.aggregates.map AggregateRequest.toJson)),
      ("columns", p.columns.toJson),
      ("order", .arr (p.order.map OrderTerm.toJson)),
      ("limit", Json.ofOption Json.ofNat p.limit),
      ("offset", Json.ofOption Json.ofNat p.offset),
      ("search", Json.ofOption Search.toJson p.search),
      ("locale", Json.ofOption .str p.locale),
      ("sql", .str s.sql),
      ("bindings", .arr (s.bindings.map DbValue.tagged))]

def derive (space : String) (p : Plan) (s : Statement) : String :=
  space ++ ":" ++ p.table ++ ":" ++ Blake3.hex (material p s).text

end CacheKey
end EagerLoad

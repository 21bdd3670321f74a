import HyChat.Lib.Json
import HyChat.Lib.Sha2

/-!
# Cache keys

`CacheService.digest` hashes the JSON text of its arguments. The text is the one `json.dumps`
prints with its default separators, a blank after every comma and colon, which is not the compact
form the tool invocations are hashed in.
-/

set_option autoImplicit false

namespace HyChat

open Lib

namespace Cache

/-- `CacheService.digest(*parts)`. -/
def digest (parts : List Json) : String :=
  Sha2.hexdigest (String.ofList (Json.arr parts).sortKeys.spaced)

end Cache

end HyChat

import Biggy.Pull
import Biggy.Paging

/-!
# Pulling from a REST endpoint

`_rest_records` builds each request from the source: a page number or an offset, a token or
a link from the last answer, with templates in parameters, headers and body. It ends at an
empty page, when the pages it has asked for cover the total, or after `max_pages` requests,
and then keeps the records that are newer than the watermark, by cursor.
-/
namespace Biggy

/-- What a REST pull calls besides: `str.upper` and `base64.b64encode`. -/
structure RestLib extends PullLib where
  upper : String → String
  base64 : String → String

namespace Pull

/-- `value or default` of a text. -/
def orText (value : Option String) (default : String) : String := (value.filter (· ≠ "")).getD default

/-- `value or default` of a number. -/
def orInt (value : Option ℤ) (default : ℤ) : ℤ := (value.filter (· ≠ 0)).getD default

/-- `pagination.style`. -/
inductive Style
  | none | page | offset | cursor | link
  deriving DecidableEq

structure Pagination where
  style : Style := .none
  param : Option String := none
  sizeParam : Option String := none
  start : Option ℤ := none
  nextPath : Option String := none
  maxPages : Option ℤ := none

/-- `auth.type`. -/
inductive AuthType
  | none | bearer | apiKey | basic | queryKey
  deriving DecidableEq

structure AuthConfig where
  type : AuthType := .none
  header : Option String := none
  username : Option String := none
  param : Option String := none

structure RequestConfig where
  method : Option String := none
  params : List (String × Json) := []
  headers : List (String × Json) := []
  body : Json := .null

/-- A pull source of kind `rest` with its configuration. -/
structure RestSource extends PullSource where
  url : Option String := none
  headers : Option String := none
  authSecret : Option String := none
  recordsPath : Option String := none
  auth : AuthConfig := {}
  request : RequestConfig := {}
  pagination : Pagination := {}

/-- What a template can name. -/
structure Context where
  watermark : String
  page : ℤ
  pageSize : ℤ
  cursor : Json

def Context.get (ctx : Context) : String → Json
  | "watermark" => .str ctx.watermark
  | "page" => .int ctx.page
  | "page_size" => .int ctx.pageSize
  | "cursor" => ctx.cursor
  | _ => .null

/-- The arguments of `fetch_url`; the first binding of a name counts. -/
structure Request where
  method : String
  url : Json
  headers : List (String × Json)
  params : List (String × Json)
  body : Json

/-- `value or default` of a decoded value. -/
def orJson (value default : Json) : Json := if value.truthy then value else default

section Building

variable (lib : RestLib) (source : RestSource)

/-- `_fill`. -/
def fill (template : Json) (ctx : Context) : Json :=
  match template with
  | .null => .null
  | v => .str (String.ofList (substitute (fun c => Triggers.isWord lib.toPyLib c || c == '.')
      (fun name => match ctx.get name with | .null => [] | value => (lib.strJson value).toList)
      none (lib.strJson v).toList))

def fillMap (templates : List (String × Json)) (ctx : Context) : List (String × Json) :=
  templates.map fun p => (p.1,fill lib p.2 ctx)

/-- The headers of `_auth`. -/
def authHeaders : List (String × Json) :=
  let secret := orText source.authSecret ""
  match source.auth.type with
  | .bearer => [("Authorization",.str ("Bearer " ++ secret))]
  | .apiKey => [(orText source.auth.header "X-API-Key",.str secret)]
  | .basic => [("Authorization",.str ("Basic " ++ lib.base64 (source.auth.username.getD "" ++ ":" ++ secret)))]
  | _ => []

/-- The parameters of `_auth`. -/
def authParams : List (String × Json) :=
  match source.auth.type with
  | .queryKey => [(orText source.auth.param "api_key",.str (orText source.authSecret ""))]
  | _ => []

/-- The stored headers; what is no object cannot be spread into the headers of a request. -/
def baseHeaders : Except PyError (List (String × Json)) :=
  match source.headers.filter (· ≠ "") with
  | none => .ok []
  | some text =>
    match lib.loads text with
    | .ok (.obj members) => .ok members
    | .ok _ => .error .typeError
    | .error (.valueError _) => .ok []
    | .error e => .error e

/-- `start`. -/
def RestSource.startPage : ℤ := orInt source.pagination.start 1

/-- `max_pages`. -/
def RestSource.maxPages : ℕ := (max 1 (orInt source.pagination.maxPages 20)).toNat

/-- The parameters that the style adds. -/
def styleParams (page : ℤ) (token : Json) : List (String × Json) :=
  let pg := source.pagination
  let size : List (String × Json) := match pg.sizeParam.filter (· ≠ "") with
    | some name => [(name,.int source.perPage)]
    | none => []
  match pg.style with
  | .page => size ++ [(orText pg.param "page",.int page)]
  | .offset => size ++ [(orText pg.param "offset",.int ((page-source.startPage)*source.perPage))]
  | .cursor => if token.truthy then [(orText pg.param "cursor",token)] else []
  | _ => []

/-- One request of the loop. -/
def restRequest (base : List (String × Json)) (page : ℤ) (token next : Json) : Request :=
  let ctx : Context := ⟨orText source.watermark "",page,source.perPage,orJson token (.str "")⟩
  let method := lib.upper (orText source.request.method "GET")
  { method := method
    url := orJson next (match source.url with | some url => .str url | none => .null)
    headers := authHeaders lib source ++ fillMap lib source.request.headers ctx ++ base
    params := styleParams source page token ++ fillMap lib source.request.params ctx ++ authParams source
    body := if method ≠ "GET" then fill lib source.request.body ctx else .null }

end Building

/-! ### Reading an answer -/

def isDict : Json → Bool
  | .obj _ => true
  | _ => false

/-- `_extract`. -/
def extract (data : Json) (recordsPath : Option String) : Except PyError (List Json) :=
  let found := match recordsPath.filter (· ≠ "") with
    | some path => dig data path
    | none =>
      match data with
      | .arr items => .arr items
      | .obj members => Json.get members "data"
      | _ => .null
  if found.truthy then
    match found with
    | .arr items => .ok (items.filter isDict)
    | .obj _ | .str _ => .ok []
    | _ => .error .typeError
  else .ok []

/-- `data.get("total")` of a dict. -/
def totalOf : Json → Json
  | .obj members => Json.get members "total"
  | _ => .null

/-- `total is not None and covered >= total`. -/
def reaches (covered : ℤ) : Json → Except PyError Bool
  | .null => .ok false
  | .bool b => .ok (decide ((if b then 1 else 0) ≤ covered))
  | .int n => .ok (decide (n ≤ covered))
  | .float x => .ok (decide (x ≠ .nan) && !(PyFloat.finite covered).lt x)
  | _ => .error .typeError

def isNull : Json → Bool
  | .null => true
  | _ => false

section Loop

variable (lib : RestLib) (source : RestSource) (fetch : Request → ℤ × Json)

/-- The loop of `_rest_records` for a number of further requests. -/
def restPages (base : List (String × Json)) : ℕ → ℤ → Json → Json → List Json → Except PyError (List Json)
  | 0, _, _, _, collected => .ok collected
  | n+1, page, token, next, collected =>
    let answer := fetch (restRequest lib source base page token next)
    if answer.1 ≠ 200 ∨ isNull answer.2 then .ok collected
    else
      match extract answer.2 source.recordsPath with
      | .error e => .error e
      | .ok rows =>
        if source.pagination.style = .none ∨ rows.isEmpty then .ok (collected++rows)
        else
          match source.pagination.style with
          | .cursor =>
            let token := dig answer.2 (orText source.pagination.nextPath "")
            if token.truthy then restPages base n page token next (collected++rows) else .ok (collected++rows)
          | .link =>
            let next := dig answer.2 (orText source.pagination.nextPath "")
            if next.truthy then restPages base n page token next (collected++rows) else .ok (collected++rows)
          | _ =>
            match reaches (page*source.perPage) (totalOf answer.2) with
            | .error e => .error e
            | .ok true => .ok (collected++rows)
            | .ok false => restPages base n (page+1) token next (collected++rows)

/-- The records whose cursor is newer than the watermark. -/
def selectNewer (cursor : String) : List Json → Except PyError (List Json)
  | [] => .ok []
  | r::rs =>
    match greater lib.toPullLib source.cursorType (dig r cursor) source.watermark with
    | .error e => .error e
    | .ok b => (selectNewer cursor rs).map fun rest => if b then r::rest else rest

/-- The keys that `sort` computes before it moves anything. -/
def withKeys (cursor : String) : List Json → Except PyError (List (Key × Json))
  | [] => .ok []
  | r::rs =>
    match ckey lib.toPullLib source.cursorType (dig r cursor) with
    | .error e => .error e
    | .ok k => (withKeys cursor rs).map fun rest => (k,r)::rest

/-- `collected.sort(key=…)`. -/
def sortByKey (keyed : List (Key × Json)) : List (Key × Json) := keyed.mergeSort fun a b => !b.1.lt a.1

/-- `_rest_records`. -/
def restRecords : Except PyError (List Json) :=
  match baseHeaders lib source with
  | .error e => .error e
  | .ok base =>
    match restPages lib source fetch base source.maxPages source.startPage .null .null [] with
    | .error e => .error e
    | .ok collected =>
      match source.cursor with
      | none => .ok collected
      | some cursor =>
        match selectNewer lib source cursor collected with
        | .error e => .error e
        | .ok newer => (withKeys lib source cursor newer).map fun keyed => (sortByKey keyed).map Prod.snd

end Loop

end Pull
end Biggy

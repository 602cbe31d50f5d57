/-
What the admin interface reads from the headers of a request (`web/origin.rs`,
and the cookie part of `web/auth.rs`).

A header value is bytes and is used only when it is readable text.  The admin
origin is the scheme the cookie policy gives and the host the request names, and
the session cookie is the first one of its name that the request carries.
-/
import Sagittarius.Sessions
import Sagittarius.Text

open BigEndian

namespace Web

/-! ### Header values -/

/-- `HeaderMap`: the values under their names, in the order they came. -/
abbrev HeaderMap := List (String × Bytes)

namespace HeaderMap

/-- `HeaderMap::get_all`. -/
def getAll (h : HeaderMap) (name : String) : List Bytes :=
  (h.filter (fun entry => entry.1 = name)).map Prod.snd

/-- `HeaderMap::get`. -/
def get (h : HeaderMap) (name : String) : Option Bytes := (h.getAll name).head?

end HeaderMap

/-- `HeaderValue::to_str`: the text of a value of visible ASCII characters. -/
def toStr (value : Bytes) : Option String :=
  if value.all (fun b => (32 ≤ b && b < 127) || b == 9) then
    some (String.ofList (value.map Char.ofUInt8))
  else none

/-- A header as the text it holds, if it is there and readable. -/
def HeaderMap.text (h : HeaderMap) (name : String) : Option String := (h.get name).bind toStr

/-- `str::split_once` at a character. -/
def splitOnce (sep : Char) : List Char → Option (List Char × List Char)
  | [] => none
  | c :: cs =>
    if c = sep then some ([], cs) else (splitOnce sep cs).map (fun p => (c :: p.1, p.2))

/-! ### The admin origin -/

/-- `SessionCookieSecurePolicy`. -/
inductive SessionCookieSecurePolicy
  | auto
  | always
  | never
  deriving DecidableEq, Repr

namespace Origin

/-- `first_csv`. -/
def firstCsv (s : String) : String :=
  Text.trim (String.ofList ((s.toList.splitOn ',').headD s.toList))

/-- `str::eq_ignore_ascii_case`. -/
def eqIgnoreAsciiCase (a b : String) : Bool :=
  a.toList.map Char.toLower = b.toList.map Char.toLower

/-- `is_https`. -/
def isHttps (policy : SessionCookieSecurePolicy) (h : HeaderMap) : Bool :=
  match policy with
  | .always => true
  | .never => false
  | .auto =>
    ((h.text "x-forwarded-proto").map firstCsv).any (fun s => eqIgnoreAsciiCase s "https")

/-- `host`: an unreadable forwarded host is not made up for by `Host`. -/
def host (h : HeaderMap) : Option String :=
  (((h.get "x-forwarded-host").or (h.get "host")).bind toStr).map firstCsv

/-- `origin`. -/
def origin (policy : SessionCookieSecurePolicy) (h : HeaderMap) : Option String :=
  let scheme := if isHttps policy h then "https" else "http"
  (host h).map (fun host => scheme ++ "://" ++ host)

end Origin

/-! ### The session cookie -/

/-- `COOKIE_SECURE`. -/
def COOKIE_SECURE : String := "__Host-sgt_session"

/-- `COOKIE_INSECURE`. -/
def COOKIE_INSECURE : String := "sgt_session"

/-- The value of a cookie pair that names the session cookie. -/
def sessionValue (pair : List Char) : Option (List Char) :=
  match splitOnce '=' (Text.trimBy Text.isWhitespace pair) with
  | none => none
  | some (name, value) =>
    if name = COOKIE_SECURE.toList ∨ name = COOKIE_INSECURE.toList then some value else none

/-- `SessionCookie::from_headers`: the first pair of that name decides, also when
its value is malformed. -/
def SessionCookie.fromHeaders (h : HeaderMap) : Option SessionCookie :=
  let pairs := ((h.getAll "cookie").filterMap toStr).flatMap (fun s => s.toList.splitOn ';')
  (pairs.findSome? sessionValue).bind (fun value =>
    (splitOnce '.' value).map (fun p => ⟨String.ofList p.1, String.ofList p.2⟩))

example : SessionCookie.fromHeaders
    [("cookie", utf8 "a=b"), ("cookie", utf8 "x; foo=bar ; sgt_session=abc.d.f; sgt_session=x.y")] =
      some ⟨"abc", "d.f"⟩ := by
  decide

end Web

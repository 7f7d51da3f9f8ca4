import Stutter.Joyent.Types

namespace Stutter.Joyent

/-- `TOKEN(c)` of the strict build: the table `tokens`, 0 for what is no token. -/
def token (ch : UInt8) : UInt8 :=
  if isAlpha ch then lower ch
  else if isNum ch ∨ ch ∈ ascii "!#$%&'*+-.^_`|~" then ch
  else 0

/-- `unhex`: the table names its first 128 entries only, so the others are 0 and not -1. -/
def unhex (ch : UInt8) : ℤ :=
  if isNum ch then digit ch
  else if 'a'.toUInt8 ≤ ch ∧ ch ≤ 'f'.toUInt8 then ch.toNat - 87
  else if 'A'.toUInt8 ≤ ch ∧ ch ≤ 'F'.toUInt8 then ch.toNat - 55
  else if 128 ≤ ch then 0
  else -1

/-- `IS_URL_CHAR` of the strict build: the bits of `normal_url_char`. -/
def isUrlChar (ch : UInt8) : Bool :=
  '!'.toUInt8 ≤ ch && ch ≤ '~'.toUInt8 && ch ≠ '#'.toUInt8 && ch ≠ '?'.toUInt8

/-- `IS_USERINFO_CHAR` -/
def isUserinfoChar (ch : UInt8) : Bool :=
  isAlpha ch || isNum ch || ch ∈ ascii "-_.!~*'()%;:&=+$,"

def parseUrlChar (s : State) (ch : UInt8) : State :=
  if ch = SP ∨ ch = CR ∨ ch = LF then .dead
  else if ch = HT ∨ ch = 12 then .dead
  else match s with
  | .reqSpacesBeforeUrl =>
    if ch = '/'.toUInt8 ∨ ch = '*'.toUInt8 then .reqPath
    else if isAlpha ch then .reqSchema
    else .dead
  | .reqSchema =>
    if isAlpha ch then s
    else if ch = ':'.toUInt8 then .reqSchemaSlash
    else .dead
  | .reqSchemaSlash => if ch = '/'.toUInt8 then .reqSchemaSlashSlash else .dead
  | .reqSchemaSlashSlash => if ch = '/'.toUInt8 then .reqServerStart else .dead
  | .reqServerWithAt | .reqServerStart | .reqServer =>
    if s = .reqServerWithAt ∧ ch = '@'.toUInt8 then .dead
    else if ch = '/'.toUInt8 then .reqPath
    else if ch = '?'.toUInt8 then .reqQueryStringStart
    else if ch = '@'.toUInt8 then .reqServerWithAt
    else if isUserinfoChar ch ∨ ch = '['.toUInt8 ∨ ch = ']'.toUInt8 then .reqServer
    else .dead
  | .reqPath =>
    if isUrlChar ch then s
    else if ch = '?'.toUInt8 then .reqQueryStringStart
    else if ch = '#'.toUInt8 then .reqFragmentStart
    else .dead
  | .reqQueryStringStart | .reqQueryString =>
    if isUrlChar ch then .reqQueryString
    else if ch = '?'.toUInt8 then .reqQueryString
    else if ch = '#'.toUInt8 then .reqFragmentStart
    else .dead
  | .reqFragmentStart =>
    if isUrlChar ch then .reqFragment
    else if ch = '?'.toUInt8 then .reqFragment
    else if ch = '#'.toUInt8 then s
    else .dead
  | .reqFragment =>
    if isUrlChar ch then s
    else if ch = '?'.toUInt8 ∨ ch = '#'.toUInt8 then s
    else .dead
  | _ => .dead

end Stutter.Joyent

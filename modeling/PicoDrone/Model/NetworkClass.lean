import PicoDrone.Library.CString
import PicoDrone.Library.Machine
import PicoDrone.Model.Word

/-!
# Wi-Fi provisioning

`NetworkClass::cgi_handler`, `setCredentials` and `connect` of `Network/NetworkClass.cpp`,
and the way the values of the form of `index.html` take to them. The browser and the HTTP
server are not part of the repository: the browser encodes the form as
`application/x-www-form-urlencoded`, and the server splits the query at `&` and at the first
`=` and decodes nothing.
-/

set_option autoImplicit false

namespace PicoDrone.Model

open PicoDrone.Library

/-! ## The browser -/

/-- A byte that the encoding of a form keeps: a letter, a digit, or one of `*-._`. -/
def isPlain (b : Byte) : Bool :=
  (0x30#8 ≤ b && b ≤ 0x39#8) || (0x41#8 ≤ b && b ≤ 0x5A#8) || (0x61#8 ≤ b && b ≤ 0x7A#8) ||
    b == 0x2A#8 || b == 0x2D#8 || b == 0x2E#8 || b == 0x5F#8

/-- An upper case hexadecimal digit. -/
def hexDigit (n : Byte) : Byte := if n < 10#8 then 0x30#8 + n else 0x37#8 + n

/-- The encoding of a byte: as it is, `+` for a space, or `%` and two digits. -/
def formByte (b : Byte) : List Byte :=
  if isPlain b then [b]
  else if b = 0x20#8 then [0x2B#8]
  else [0x25#8, hexDigit (b >>> 4), hexDigit (b &&& 0x0F#8)]

/-- The encoding of a value of the form. -/
def formEncode (value : List Byte) : List Byte := value.flatMap formByte

/-- The query of the form with these values.
SOURCE: index.html:8-14 -/
def formQuery (ssid password : List Byte) : List Byte :=
  [0x26#8].intercalate [ascii "ssid=" ++ formEncode ssid, ascii "password=" ++ formEncode password]

/-! ## The HTTP server -/

/-- A parameter at its first `=`; without one there is no value. -/
def splitParam (param : List Byte) : List Byte × Option (List Byte) :=
  (param.takeWhile (· ≠ 0x3D#8),
    if param.contains 0x3D#8 then some (param.dropWhile (· ≠ 0x3D#8)).tail else none)

/-- The parameters of a query. -/
def queryParams (query : List Byte) : List (List Byte × Option (List Byte)) :=
  (query.splitOn 0x26#8).map splitParam

/-! ## The handler -/

/-- The static members of `NetworkClass`, and what has been printed. -/
structure NetworkClass where
  ssid : Region 32 Byte
  password : Region 64 Byte
  isCredentialsSet : Bool
  printed : List (List Byte)

namespace NetworkClass

/-- `NetworkClass::setCredentials`.
SOURCE: Network/NetworkClass.cpp:24-28 -/
def setCredentials (SSID PASSWORD : List Byte) (net : NetworkClass) : Option NetworkClass := do
  let ssid ← net.ssid.strcpy SSID
  let password ← net.password.strcpy PASSWORD
  some { net with ssid := ssid, password := password, isCredentialsSet := true }

/-- The body of the loop of `cgi_handler` with the two local buffers.
SOURCE: Network/NetworkClass.cpp:59-63 -/
def cgiParam (bufs : Region 32 Byte × Region 64 Byte)
    (param : List Byte × Option (List Byte)) : Option (Region 32 Byte × Region 64 Byte) :=
  if param.1 = ascii "ssid" then do
    let value ← param.2
    let gssid ← bufs.1.strncpy value (32 - 1)
    some (gssid, bufs.2)
  else if param.1 = ascii "password" then do
    let value ← param.2
    let gpassword ← bufs.2.strncpy value (64 - 1)
    some (bufs.1, gpassword)
  else some bufs

/-- What `cgi_handler` prints.
SOURCE: Network/NetworkClass.cpp:66 -/
def credentialsLine (gssid gpassword : List Byte) : List Byte :=
  ascii "Received SSID: " ++ gssid ++ ascii ", Password: " ++ gpassword ++ ascii "\n"

/-- `NetworkClass::cgi_handler`; the result is the page to be shown and the members.
SOURCE: Network/NetworkClass.cpp:54-73 -/
def cgiHandler (params : List (List Byte × Option (List Byte))) (net : NetworkClass) :
    Option (String × NetworkClass) := do
  let bufs ← params.foldlM cgiParam (⟨fun _ => 0#8⟩, ⟨fun _ => 0#8⟩)
  if bufs.1.cell 0 ≠ 0#8 ∧ bufs.2.cell 0 ≠ 0#8 then
    let gssid ← bufs.1.string
    let gpassword ← bufs.2.string
    let net := { net with printed := net.printed ++ [credentialsLine gssid gpassword] }
    let net ← setCredentials gssid gpassword net
    some ("/confirm.html", net)
  else some ("/index.html", net)

/-- The authentication that the firmware asks for: `CYW43_AUTH_WPA2_AES_PSK`. -/
inductive WifiAuth where
  | wpa2AesPsk
  deriving DecidableEq, Repr

/-- The arguments of `cyw43_arch_wifi_connect_timeout_ms`. -/
structure ConnectRequest where
  ssid : List Byte
  password : List Byte
  auth : WifiAuth
  timeoutMs : ℕ
  deriving DecidableEq, Repr

/-- `NetworkClass::connect`: what the driver is asked, the result, and the members. `error` is
the answer of the driver.
SOURCE: Network/NetworkClass.cpp:30-38 -/
def connect (error : ConnectRequest → ℤ) (net : NetworkClass) :
    Option (ConnectRequest × ℤ × NetworkClass) := do
  let ssid ← net.ssid.string
  let password ← net.password.string
  let request := ConnectRequest.mk ssid password .wpa2AesPsk 30000
  if error request ≠ 0 then
    some (request, 0, { net with printed := net.printed ++ [ascii "failed to connect\n"] })
  else some (request, 1, net)

/-- The user submits the form.
SOURCE: index.html:8-14 -/
def submitForm (ssid password : List Byte) (net : NetworkClass) :
    Option (String × NetworkClass) :=
  cgiHandler (queryParams (formQuery ssid password)) net

/-- The static members at boot.
SOURCE: Network/NetworkClass.cpp:9-11 -/
def start : NetworkClass := ⟨⟨fun _ => 0#8⟩, ⟨fun _ => 0#8⟩, false, []⟩

/-- A call of one of the methods that use the static members. -/
inductive Call where
  | cgiHandler (params : List (List Byte × Option (List Byte)))
  | connect (error : ConnectRequest → ℤ)

/-- The runs of the static members. -/
def machine : Machine NetworkClass Call where
  step net
    | .cgiHandler params => (cgiHandler params net).map Prod.snd
    | .connect error => (connect error net).map fun r => r.2.2

end NetworkClass

end PicoDrone.Model

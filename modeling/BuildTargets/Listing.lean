/-
  BuildTargets/Listing.lean
  =========================
  **The client's list of containers.**

  Asked for the containers, the client prints a JSON array with a record for
  each: its name, status, tags, devices as flat maps, and a state with the
  addresses of its network interfaces.  Only the name has to be there.  The
  address of a container is the last IPv4 address of the interface `eth0`.
-/
import BuildTargets.Container
import BuildTargets.Json.Decode
import BuildTargets.Json.Reader

namespace BuildTargets.Listing

open BuildTargets

/-- An address of a network interface. -/
structure Address where
  family : String
  address : String
deriving DecidableEq, Repr

def address? (j : Json) : Option Address := do
  let fields ← j.record? ["family", "address"]
  return ⟨← Json.required fields "family" Json.text?, ← Json.required fields "address" Json.text?⟩

/-- The addresses of the network interface that a record describes. -/
def interface? (j : Json) : Option (List Address) := do
  let fields ← j.record? ["addresses"]
  Json.optional fields "addresses" [] (Json.list? address?)

/-- The network interfaces in the state that a record describes. -/
def state? (j : Json) : Option (Option (Dict String (List Address))) := do
  let fields ← j.record? ["network"]
  Json.optional fields "network" none (Json.nullable? (Json.dict? interface?))

def mainInterface : String := "eth0"

def ipv4Family : String := "inet"

/-- The address of a container among those of its interfaces. -/
def mainAddress (interfaces : Dict String (List Address)) : Option String :=
  match interfaces.get? mainInterface with
  | some addresses => ((addresses.filter (·.family = ipv4Family)).map (·.address)).getLast?
  | none => none

def container? (j : Json) : Option Container := do
  let fields ← j.record? ["name", "status", "config", "devices", "state"]
  let name ← Json.required fields "name" Json.text?
  let status ← Json.optional fields "status" "" Json.text?
  let config ← Json.optional fields "config" .empty (Json.dict? Json.text?)
  let devices ← Json.optional fields "devices" .empty (Json.dict? (Json.dict? Json.text?))
  let state ← Json.optional fields "state" none (Json.nullable? state?)
  return {
    name := name
    status := .ofText status
    config := config
    devices := devices.map Device.ofReport
    ipv4 := state.join.bind mainAddress }

/-- The containers that a text lists, in the order of the text. -/
def read? (text : String) : Option (List Container) := Json.read? text >>= Json.list? container?

end BuildTargets.Listing

import Vdc.Dsuid
import Vdc.Endpoint

/-!
# The reference lamp

The smallest application with a device in it: one container with one dimmable lamp. The container is
announced when a session opens, and the lamp once the container was accepted. Scenes and the output
channel set the brightness; the properties can be asked for, and the name of the lamp can be set.
-/

namespace Vdc

/-- The lamp. -/
structure Lamp where
  dsuid : String
  brightness : Double
  name : String
deriving DecidableEq, Repr

namespace Lamp

/-- The name under which the lamp and its container are announced and described. -/
def productName : String := "dsvdc reference"

/-- The model of the container. -/
def modelName : String := "dsvdc-reference"

/-- A percentage. -/
def percent (n : Nat) : Double := .ofInt n

/-- A lamp that is off. -/
def new (dsuid : String) : Lamp := ⟨dsuid, percent 0, "Lamp"⟩

/-! ## Properties -/

/-- The nodes of those properties that are asked for, all of them if none is named. -/
def answer (query response : Property) (properties : List Node) : Property :=
  (properties.filter fun node =>
    query.nodes.isEmpty || (node.name.bind query.find?).isSome).foldl Property.push response

/-- The properties of the lamp. -/
def properties (lamp : Lamp) : List Node :=
  [.leaf (some "name") (.string lamp.name),
    .branch (some "outputSettings") [.leaf (some "group") (.uint 1), .leaf (some "mode") (.uint 1)],
    .branch (some "buttonInputSettings")
      [.leaf (some "group") (.uint 1), .leaf (some "function") (.uint 5),
        .leaf (some "mode") (.uint 0)],
    .branch (some "channelStates")
      [.branch (some "brightness") [.leaf (some "value") (.double lamp.brightness)]]]

/-- The properties of the container. -/
def containerProperties : List Node :=
  [.leaf (some "name") (.string productName), .leaf (some "model") (.string modelName)]

/-- What comes of setting properties: the name is the only one that can be set. -/
def setProperties (lamp : Lamp) (values : Property) : ResultCode × Lamp :=
  match (values.find? "name").bind Node.value? with
  | some (.string name) => (.ok, { lamp with name := name })
  | some _ => (.invalidValueType, lamp)
  | none => (.notImplemented, lamp)

/-! ## The application -/

/-- Announces the lamp in its container. -/
def announceLamp (container : String) : Script Lamp :=
  .recall fun lamp => .announce (.device container lamp.dsuid) (fun _ => .done) fun _ => .done

/-- Announces the container, and the lamp once the container was accepted. -/
def announceContainer : Script Lamp :=
  .inspect fun status =>
    .announce (.container status.own)
      (fun outcome => if outcome = .answered .ok then announceLamp status.own else .done)
      fun _ => .done

/-- Changes the lamp if it is among the devices that are addressed. -/
def adjust (dsuids : List String) (change : Lamp → Lamp) : Script Lamp :=
  .remember (fun lamp => if dsuids.contains lamp.dsuid then change lamp else lamp) .done

/-- The brightness that a scene asks for; most scenes ask for none. -/
def sceneBrightness? (scene : Int32) : Option Double :=
  if scene = 0 then some (percent 0) else if scene = 5 then some (percent 100) else none

/-- Answers a property query. -/
def answerQuery (dsuid : String) (query response : Property) : Script Lamp :=
  .recall fun lamp => .inspect fun status =>
    if dsuid = lamp.dsuid then .tell (.property (answer query response lamp.properties))
    else if dsuid = status.own then .tell (.property (answer query response containerProperties))
    else .tell (.generic response.requestId .notFound)

/-- Answers a property update. -/
def answerUpdate (dsuid : String) (values response : Property) : Script Lamp :=
  .recall fun lamp =>
    if dsuid = lamp.dsuid then
      .remember (fun lamp => (lamp.setProperties values).2)
        (.tell (.propertySet response (lamp.setProperties values).1))
    else .tell (.propertySet response .notFound)

/-- What the lamp does when it is called back. -/
def react : Callback → Script Lamp
  | .hello => announceContainer
  | .ping dsuid => .recall fun lamp => if dsuid = lamp.dsuid then .tell (.pong dsuid) else .done
  | .callScene dsuids scene _ _ =>
    match sceneBrightness? scene with
    | some brightness => adjust dsuids ({ · with brightness := brightness })
    | none => .done
  | .setChannelValue dsuids _ channel value _ =>
    if channel = 0 then
      adjust dsuids ({ · with brightness := value.clamp (percent 0) (percent 100) })
    else .done
  | .getProperty dsuid query response => answerQuery dsuid query response
  | .setProperty dsuid values response => answerUpdate dsuid values response
  | _ => .done

/-- The application of the lamp, which does not let itself be removed. -/
def application : Application Lamp := ⟨react, fun _ _ => false⟩

/-- Opens the endpoint of a lamp on a port. -/
def start (container lamp name : String) (port : UInt16) : Endpoint.Started Lamp :=
  Endpoint.start application (new lamp) container
    { Config.default with name := name, port := port } (some ⟨[], none⟩) port

end Lamp

end Vdc

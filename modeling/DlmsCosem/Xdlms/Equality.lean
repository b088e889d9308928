import DlmsCosem.Axdr.Equality
import DlmsCosem.Xdlms.Apdu

/-!
# Equality of messages

`PartialEq` of an APDU is derived: the same variant with equal fields. Only that of a list is written by
hand, and looks at the count and the bytes but not at the place. A message without lists and without
values of its own is equal to another where all its fields are the same (`==`).
-/

namespace Dlms

/-- `PartialEq` of values that may be missing. -/
def eqOption {α : Type} (eq : α → α → Bool) : Option α → Option α → Bool
  | none, none => true
  | some a, some b => eq a b
  | _, _ => false

/-- `PartialEq` of lists. -/
def WireList.eq (l l' : WireList) : Bool := l.count == l'.count && l.raw == l'.raw

def SelectiveAccess.eq (s t : SelectiveAccess) : Bool :=
  s.selector == t.selector && s.parameters.eq t.parameters

def GetDataResult.eq : GetDataResult → GetDataResult → Bool
  | data d, data e => d.eq e
  | error e, error e' => e == e'
  | _, _ => false

/-! ## GET, SET and ACTION -/

def GetRequest.eq : GetRequest → GetRequest → Bool
  | normal i d a, normal i' d' a' => i == i' && d == d' && eqOption SelectiveAccess.eq a a'
  | next i n, next i' n' => i == i' && n == n'
  | withList i l, withList i' l' => i == i' && l.eq l'
  | _, _ => false

def GetResponse.eq : GetResponse → GetResponse → Bool
  | normal i r, normal i' r' => i == i' && r.eq r'
  | withDataBlock i b, withDataBlock i' b' => i == i' && b == b'
  | withList i l, withList i' l' => i == i' && l.eq l'
  | _, _ => false

def SetRequest.eq : SetRequest → SetRequest → Bool
  | normal i d a v, normal i' d' a' v' =>
    i == i' && d == d' && eqOption SelectiveAccess.eq a a' && v.eq v'
  | withFirstDataBlock i d a b, withFirstDataBlock i' d' a' b' =>
    i == i' && d == d' && eqOption SelectiveAccess.eq a a' && b == b'
  | withDataBlock i b, withDataBlock i' b' => i == i' && b == b'
  | withList i ds vs, withList i' ds' vs' => i == i' && ds.eq ds' && vs.eq vs'
  | withListAndFirstDataBlock i ds b, withListAndFirstDataBlock i' ds' b' =>
    i == i' && ds.eq ds' && b == b'
  | _, _ => false

def SetResponse.eq : SetResponse → SetResponse → Bool
  | normal i r, normal i' r' => i == i' && r == r'
  | dataBlock i n, dataBlock i' n' => i == i' && n == n'
  | lastDataBlock i r n, lastDataBlock i' r' n' => i == i' && r == r' && n == n'
  | lastDataBlockWithList i l n, lastDataBlockWithList i' l' n' => i == i' && l.eq l' && n == n'
  | withList i l, withList i' l' => i == i' && l.eq l'
  | _, _ => false

def ActionResponseWithOptionalData.eq (r r' : ActionResponseWithOptionalData) : Bool :=
  r.result == r'.result && eqOption GetDataResult.eq r.returnParameters r'.returnParameters

def ActionRequest.eq : ActionRequest → ActionRequest → Bool
  | normal i d p, normal i' d' p' => i == i' && d == d' && eqOption Data.eq p p'
  | nextPblock i n, nextPblock i' n' => i == i' && n == n'
  | withList i ds ps, withList i' ds' ps' => i == i' && ds.eq ds' && ps.eq ps'
  | withFirstPblock i d b, withFirstPblock i' d' b' => i == i' && d == d' && b == b'
  | withListAndFirstPblock i ds b, withListAndFirstPblock i' ds' b' => i == i' && ds.eq ds' && b == b'
  | withPblock i b, withPblock i' b' => i == i' && b == b'
  | _, _ => false

def ActionResponse.eq : ActionResponse → ActionResponse → Bool
  | normal i r, normal i' r' => i == i' && r.eq r'
  | withPblock i b, withPblock i' b' => i == i' && b == b'
  | withList i l, withList i' l' => i == i' && l.eq l'
  | nextPblock i n, nextPblock i' n' => i == i' && n == n'
  | _, _ => false

/-! ## The other services -/

def AccessRequest.eq (q q' : AccessRequest) : Bool :=
  q.longInvokeId == q'.longInvokeId && q.dateTime == q'.dateTime &&
    q.specification.eq q'.specification && q.data.eq q'.data

def AccessResponse.eq (q q' : AccessResponse) : Bool :=
  q.longInvokeId == q'.longInvokeId && q.dateTime == q'.dateTime &&
    eqOption WireList.eq q.requestSpecification q'.requestSpecification && q.data.eq q'.data &&
    q.responseSpecification.eq q'.responseSpecification

def DataNotification.eq (q q' : DataNotification) : Bool :=
  q.longInvokeId == q'.longInvokeId && q.dateTime == q'.dateTime && q.body.eq q'.body

def EventNotification.eq (q q' : EventNotification) : Bool :=
  q.time == q'.time && q.descriptor == q'.descriptor && q.value.eq q'.value

def ReadRequest.eq (q q' : ReadRequest) : Bool := q.specification.eq q'.specification

def ReadResponse.eq (q q' : ReadResponse) : Bool := q.results.eq q'.results

def WriteRequest.eq (q q' : WriteRequest) : Bool :=
  q.specification.eq q'.specification && q.values.eq q'.values

def WriteResponse.eq (q q' : WriteResponse) : Bool := q.results.eq q'.results

def InformationReportRequest.eq (q q' : InformationReportRequest) : Bool :=
  q.currentTime == q'.currentTime && q.specification.eq q'.specification && q.values.eq q'.values

/-! ## Any APDU -/

namespace Apdu

/-- `PartialEq`, as it is derived. -/
def eq : Apdu → Apdu → Bool
  | getRequest q, getRequest q' => q.eq q'
  | getResponse q, getResponse q' => q.eq q'
  | setRequest q, setRequest q' => q.eq q'
  | setResponse q, setResponse q' => q.eq q'
  | actionRequest q, actionRequest q' => q.eq q'
  | actionResponse q, actionResponse q' => q.eq q'
  | accessRequest q, accessRequest q' => q.eq q'
  | accessResponse q, accessResponse q' => q.eq q'
  | dataNotification q, dataNotification q' => q.eq q'
  | eventNotification q, eventNotification q' => q.eq q'
  | readRequest q, readRequest q' => q.eq q'
  | readResponse q, readResponse q' => q.eq q'
  | writeRequest q, writeRequest q' => q.eq q'
  | writeResponse q, writeResponse q' => q.eq q'
  | unconfirmedWriteRequest q, unconfirmedWriteRequest q' => q.eq q'
  | informationReportRequest q, informationReportRequest q' => q.eq q'
  | a, b => a == b

end Apdu

end Dlms

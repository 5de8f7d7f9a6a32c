import Bulletin.Alert.Notification
import Bulletin.Query.Http

/-!
# Delivering notifications

Mails go to a mail transport and documents are posted over HTTP. Posting succeeds if the address
answers with a status of success.
-/

namespace Bulletin.Delivery

/-- The request that posts a document. -/
def postRequest (url : String) (headers : Fields String) (body : Json) : HttpRequest :=
  { method := "POST", url, headers, body := some body }

/-- Posts a document over a transport. -/
def postDocument (transport : HttpRequest → Except String HttpResponse) (url : String)
    (headers : Fields String) (body : Json) : Except DeliveryError Unit :=
  match transport (postRequest url headers body) with
  | .error text => .error (.http text)
  | .ok response =>
    if Http.isSuccess response.status then .ok () else .error (.status url response.status)

/-- Sends one delivery. -/
def send (transport : HttpRequest → Except String HttpResponse)
    (mail : Mail → Except DeliveryError Unit) : Delivery → Except DeliveryError Unit
  | .mail message => mail message
  | .post url headers body => postDocument transport url headers body

/-- Tells one channel of a notification. -/
def tell (transport : HttpRequest → Except String HttpResponse)
    (mail : Mail → Except DeliveryError Unit) (channel : Channel) (n : Notification) :
    Except DeliveryError Unit :=
  (prepare channel n).bind (send transport mail)

end Bulletin.Delivery

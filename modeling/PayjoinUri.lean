import PayjoinUri.Text
import PayjoinUri.UrlCrate
import PayjoinUri.Fragment
import PayjoinUri.FragmentStore
import PayjoinUri.Collaborators
import PayjoinUri.UrlExt
import PayjoinUri.UrlParse
import PayjoinUri.Deserialize
import PayjoinUri.Serialize
import PayjoinUri.Exchange
import PayjoinUri.DeserializeErrors
import PayjoinUri.ErrorText
import PayjoinUri.UriExt
import PayjoinUri.Receiver

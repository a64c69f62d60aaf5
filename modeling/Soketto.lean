import Soketto.Frame
import Soketto.Wire
import Soketto.Utf8
import Soketto.Codec
import Soketto.Reader
import Soketto.Steps
import Soketto.Refinement
import Soketto.RoundTrip
import Soketto.Overflow
import Soketto.Runs
import Soketto.Chunks
import Soketto.Config

import WhatIsHappening.Slots.Exclusive
import WhatIsHappening.Slots.Signals
import WhatIsHappening.Slots.Representation
import WhatIsHappening.Backend.Live
import WhatIsHappening.Backend.Tidy
import WhatIsHappening.Backend.Numbers
import WhatIsHappening.Backend.Visible
import WhatIsHappening.Exposition.Series
import WhatIsHappening.Backend.Callbacks
import WhatIsHappening.Backend.EndFailure
import WhatIsHappening.Walk.Coverage
import WhatIsHappening.Walk.Measures
import WhatIsHappening.Walk.Sharing
import WhatIsHappening.Exposition.Agreement
import WhatIsHappening.HttpServer.Dumb
import WhatIsHappening.HttpServer.ListenAddress
import WhatIsHappening.HttpServer.Routing
import WhatIsHappening.Startup
import WhatIsHappening.Backend.Among
import WhatIsHappening.Backend.Values
import WhatIsHappening.Readers.Emissions
import WhatIsHappening.Readers.OneQuery
import WhatIsHappening.Slots.Lookup
import WhatIsHappening.Backend.StartFailure
import WhatIsHappening.Walk.Depth
import WhatIsHappening.Exposition.Positions
import WhatIsHappening.Exposition.Columns
import WhatIsHappening.Exposition.QueryText
import WhatIsHappening.Exposition.TimeShare
import WhatIsHappening.Exposition.Families
import WhatIsHappening.HttpServer.Framing
import WhatIsHappening.HttpServer.RequestLine
import WhatIsHappening.HttpServer.Segments
import WhatIsHappening.Walk.Bounds
import WhatIsHappening.Slots.Apart
import WhatIsHappening.Exposition.Capacity
import WhatIsHappening.Slots.Segment
import WhatIsHappening.Slots.Progress
import WhatIsHappening.Readers.Cleanup
import WhatIsHappening.HttpServer.Resources
import WhatIsHappening.HttpServer.MgChunks
import WhatIsHappening.HttpServer.MgConversation
